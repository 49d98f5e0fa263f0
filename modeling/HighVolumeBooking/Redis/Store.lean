import HighVolumeBooking.Redis.SortedSet
import Mathlib.Data.String.Basic
import Mathlib.Logic.Function.Basic

namespace Redis

/-- A value that is stored until an instant, in milliseconds. -/
structure Volatile (V : Type) where
  value : V
  expiresAt : Int
  deriving DecidableEq, Repr

/-- The keys of a server at an instant. What has expired is not there. -/
structure Store (V : Type) where
  now : Int
  zsets : String → SortedSet Int String
  strings : String → Option (Volatile V)
  live : ∀ key v, strings key = some v → now < v.expiresAt

inductive Command (V : Type) where
  | get (key : String)
  | setNX (key : String) (value : V) (ex : Nat)
  | del (key : String)
  | zaddNX (key : String) (score : Int) (member : String)
  | zrank (key : String) (member : String)
  | zcard (key : String)
  | zrange (key : String) (start stop : Int)
  | zrem (key : String) (members : List String)
  deriving DecidableEq, Repr

@[reducible] def Command.Reply {V : Type} : Command V → Type
  | .get _ => Option V
  | .setNX _ _ _ => Bool
  | .del _ => Nat
  | .zaddNX _ _ _ => Nat
  | .zrank _ _ => Option Nat
  | .zcard _ => Nat
  | .zrange _ _ _ => List String
  | .zrem _ _ => Nat

namespace Store

variable {V : Type}

def init (now : Int) : Store V := ⟨now, fun _ => .empty, fun _ => none, by simp⟩

/-- Time passes, and keys expire with it. -/
def tick (s : Store V) (t : Int) : Store V where
  now := t
  zsets := s.zsets
  strings := fun key => (s.strings key).filter fun v => t < v.expiresAt
  live := by
    intro key v hv
    simpa using (Option.filter_eq_some_iff.mp hv).2

def put (s : Store V) (key : String) (value : V) (ex : Nat) (h : 0 < ex) : Store V where
  now := s.now
  zsets := s.zsets
  strings := Function.update s.strings key (some ⟨value, s.now + 1000 * ex⟩)
  live := by
    intro k v hv
    by_cases hk : k = key
    · subst hk
      rw [Function.update_self] at hv
      obtain rfl := Option.some.inj hv
      simp only
      omega
    · rw [Function.update_of_ne hk] at hv
      exact s.live k v hv

def erase (s : Store V) (key : String) : Store V where
  now := s.now
  zsets := s.zsets
  strings := Function.update s.strings key none
  live := by
    intro k v hv
    by_cases hk : k = key
    · subst hk
      simp at hv
    · rw [Function.update_of_ne hk] at hv
      exact s.live k v hv

def modify (s : Store V) (key : String) (z : SortedSet Int String) : Store V :=
  { s with zsets := Function.update s.zsets key z }

/-- An expiry of zero seconds is an error, which stores nothing. -/
def exec (s : Store V) : (c : Command V) → c.Reply × Store V
  | .get key => ((s.strings key).map Volatile.value, s)
  | .setNX key value ex =>
    if h : 0 < ex then
      match s.strings key with
      | some _ => (false, s)
      | none => (true, s.put key value ex h)
    else (false, s)
  | .del key => (if (s.strings key).isSome then 1 else 0, s.erase key)
  | .zaddNX key score member =>
    (if member ∈ s.zsets key then 0 else 1, s.modify key ((s.zsets key).addNX ⟨score, member⟩))
  | .zrank key member => ((s.zsets key).rank member, s)
  | .zcard key => ((s.zsets key).card, s)
  | .zrange key start stop => ((s.zsets key).range start stop, s)
  | .zrem key members =>
    (((s.zsets key).members.filter fun m => m ∈ members).length,
      s.modify key ((s.zsets key).remove members))

/-! What a command leaves behind. -/


section Frame

variable {s : Store V} {c : Command V} {key : String}

theorem now_exec (s : Store V) (c : Command V) : (s.exec c).2.now = s.now := by
  cases c with
  | setNX k value ex =>
    simp only [exec]
    split
    · split <;> rfl
    · rfl
  | _ => rfl

theorem strings_tick {t : Int} (h : ∀ v, s.strings key = some v → t < v.expiresAt) :
    (s.tick t).strings key = s.strings key := by
  simp only [tick]
  cases hk : s.strings key with
  | none => rfl
  | some v => rw [Option.filter_some, if_pos (by simpa using h v hk)]

theorem strings_exec_setNX {k : String} {value : V} {ex : Nat} (h : 0 < ex) :
    (s.exec (.setNX k value ex)).2.strings key =
      if key = k ∧ s.strings k = none then some ⟨value, s.now + 1000 * ex⟩ else s.strings key := by
  simp only [exec, dif_pos h]
  cases hk : s.strings k with
  | some v => simp
  | none =>
    by_cases hkey : key = k
    · subst hkey
      simp [put]
    · simp [put, hkey]

theorem strings_exec_del {k : String} :
    (s.exec (.del k)).2.strings key = if key = k then none else s.strings key := by
  by_cases hkey : key = k
  · subst hkey
    simp [exec, erase]
  · simp [exec, erase, hkey]

theorem zsets_exec_zaddNX {k member : String} {score : Int} :
    (s.exec (.zaddNX k score member)).2.zsets key =
      if key = k then (s.zsets k).addNX ⟨score, member⟩ else s.zsets key := by
  by_cases hkey : key = k
  · subst hkey
    simp [exec, modify]
  · simp [exec, modify, hkey]

theorem zsets_exec_zrem {k : String} {members : List String} :
    (s.exec (.zrem k members)).2.zsets key =
      if key = k then (s.zsets k).remove members else s.zsets key := by
  by_cases hkey : key = k
  · subst hkey
    simp [exec, modify]
  · simp [exec, modify, hkey]

/-- Commands other than SET and DEL leave the string keys alone. -/
theorem strings_exec_other (hset : ∀ k value ex, c ≠ .setNX k value ex) (hdel : ∀ k, c ≠ .del k) :
    (s.exec c).2.strings = s.strings := by
  cases c with
  | setNX k value ex => exact absurd rfl (hset k value ex)
  | del k => exact absurd rfl (hdel k)
  | _ => rfl

/-- Commands other than ZADD and ZREM leave the sorted sets alone. -/
theorem zsets_exec_other (hadd : ∀ k score member, c ≠ .zaddNX k score member)
    (hrem : ∀ k members, c ≠ .zrem k members) : (s.exec c).2.zsets = s.zsets := by
  cases c with
  | zaddNX k score member => exact absurd rfl (hadd k score member)
  | zrem k members => exact absurd rfl (hrem k members)
  | setNX k value ex =>
    simp only [exec]
    split
    · split <;> rfl
    · rfl
  | _ => rfl

end Frame

end Store

end Redis

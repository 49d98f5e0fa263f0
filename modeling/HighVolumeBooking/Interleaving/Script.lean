namespace Interleaving

/-- A shared service whose commands take effect one at a time. The event says
how a command turns out where its arguments leave that open; env are the
changes the service makes by itself. -/
structure Service where
  State : Type
  Op : Type
  Reply : Op → Type
  Event : Type
  exec : State → (o : Op) → Event → Option (Reply o × State)
  env : State → Event → Option State

variable {S : Service} {ε β γ δ : Type}

abbrev Answer (S : Service) := (o : S.Op) × S.Reply o

/-- The code of a call, as a tree: each node is one command and continues with
whatever is answered. ask is answered in the caller's own process, call waits
for the reply of the service, and send goes on without waiting. -/
inductive Script (S : Service) (ε β : Type) where
  | done (b : β)
  | fail (e : ε)
  | ask (o : S.Op) (k : S.Reply o → Script S ε β)
  | call (o : S.Op) (k : S.Reply o → Script S ε β)
  | send (o : S.Op) (k : Script S ε β)

namespace Script

def bind : Script S ε β → (β → Script S ε γ) → Script S ε γ
  | .done b, f => f b
  | .fail e, _ => .fail e
  | .ask o k, f => .ask o fun r => (k r).bind f
  | .call o k, f => .call o fun r => (k r).bind f
  | .send o k, f => .send o (k.bind f)

instance : Monad (Script S ε) where
  pure := .done
  bind := .bind

@[simp] theorem pure_eq (b : β) : (pure b : Script S ε β) = .done b := rfl

@[simp] theorem bind_eq (p : Script S ε β) (f : β → Script S ε γ) : p >>= f = p.bind f := rfl

@[simp] theorem done_bind (b : β) (f : β → Script S ε γ) : (Script.done b).bind f = f b := rfl

@[simp] theorem fail_bind (e : ε) (f : β → Script S ε γ) : (Script.fail e).bind f = .fail e := rfl

@[simp] theorem ask_bind (o : S.Op) (k : S.Reply o → Script S ε β) (f : β → Script S ε γ) :
    (Script.ask o k).bind f = .ask o fun r => (k r).bind f := rfl

@[simp] theorem call_bind (o : S.Op) (k : S.Reply o → Script S ε β) (f : β → Script S ε γ) :
    (Script.call o k).bind f = .call o fun r => (k r).bind f := rfl

@[simp] theorem send_bind (o : S.Op) (k : Script S ε β) (f : β → Script S ε γ) :
    (Script.send o k).bind f = .send o (k.bind f) := rfl

theorem bind_assoc (p : Script S ε β) (f : β → Script S ε γ) (g : γ → Script S ε δ) :
    (p.bind f).bind g = p.bind fun b => (f b).bind g := by
  induction p with
  | done b => rfl
  | fail e => rfl
  | ask o k ih => exact congrArg (Script.ask o) (funext ih)
  | call o k ih => exact congrArg (Script.call o) (funext ih)
  | send o k ih => exact congrArg (Script.send o) ih

/-- What fails goes on with the handler. -/
def tryCatch : Script S ε β → (ε → Script S δ β) → Script S δ β
  | .done b, _ => .done b
  | .fail e, h => h e
  | .ask o k, h => .ask o fun r => (k r).tryCatch h
  | .call o k, h => .call o fun r => (k r).tryCatch h
  | .send o k, h => .send o (k.tryCatch h)

def forEach {α : Type} : List α → (α → Script S ε Unit) → Script S ε Unit
  | [], _ => .done ()
  | x :: xs, f => (f x).bind fun _ => forEach xs f

/-- Some way through the script sends the command without waiting for it. -/
def MaySend (o : S.Op) : Script S ε β → Prop
  | .ask _ k => ∃ reply, (k reply).MaySend o
  | .call _ k => ∃ reply, (k reply).MaySend o
  | .send o' k => o' = o ∨ k.MaySend o
  | _ => False

def finished : Script S ε β → Bool
  | .done _ => true
  | .fail _ => true
  | _ => false

end Script

end Interleaving

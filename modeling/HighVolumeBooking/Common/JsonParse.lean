import HighVolumeBooking.Common.Json
import HighVolumeBooking.Common.Number

namespace HighVolumeBooking

namespace Json

/-! JSON.parse. The fuel bounds the nesting of the calls; every number the code
sends is an integer, so a fraction or an exponent is not read. -/

def isSpace (c : Char) : Bool := c == ' ' || c == '\n' || c == '\r' || c == '\t'

def skipSpace (cs : List Char) : List Char := cs.dropWhile isSpace

def hexValue (c : Char) : Option Nat :=
  if c.isDigit then some (c.toNat - '0'.toNat)
  else if 'a' ≤ c ∧ c ≤ 'f' then some (c.toNat - 'a'.toNat + 10)
  else if 'A' ≤ c ∧ c ≤ 'F' then some (c.toNat - 'A'.toNat + 10)
  else none

/-- The character of a four-digit escape. A lone half of a surrogate pair is no
character. -/
def readHex (a b c d : Char) : Option Char := do
  let n := (((← hexValue a) * 16 + (← hexValue b)) * 16 + (← hexValue c)) * 16 + (← hexValue d)
  if n.isValidChar then some (Char.ofNat n) else none

def unescape : Char → Option Char
  | '"' => some '"'
  | '\\' => some '\\'
  | '/' => some '/'
  | 'n' => some '\n'
  | 'r' => some '\r'
  | 't' => some '\t'
  | 'b' => some (Char.ofNat 8)
  | 'f' => some (Char.ofNat 12)
  | _ => none

/-- The characters of a string up to its closing quote. -/
def readString : List Char → Option (List Char × List Char)
  | '"' :: cs => some ([], cs)
  | '\\' :: 'u' :: a :: b :: c :: d :: cs =>
    match readHex a b c d, readString cs with
    | some x, some (xs, rest) => some (x :: xs, rest)
    | _, _ => none
  | '\\' :: c :: cs =>
    match unescape c, readString cs with
    | some x, some (xs, rest) => some (x :: xs, rest)
    | _, _ => none
  | c :: cs =>
    if c.toNat < 32 then none
    else (readString cs).map fun (xs, rest) => (c :: xs, rest)
  | [] => none

def leadingZero : List Char → Bool
  | '-' :: '0' :: c :: _ => c.isDigit
  | '0' :: c :: _ => c.isDigit
  | _ => false

def readNumber (cs : List Char) : Option (Int × List Char) :=
  if leadingZero cs then none else readInteger cs

def readLiteral : List Char → Option (Json × List Char)
  | 'n' :: 'u' :: 'l' :: 'l' :: rest => some (.null, rest)
  | 't' :: 'r' :: 'u' :: 'e' :: rest => some (.bool true, rest)
  | 'f' :: 'a' :: 'l' :: 's' :: 'e' :: rest => some (.bool false, rest)
  | _ => none

mutual

def readValue : Nat → List Char → Option (Json × List Char)
  | 0, _ => none
  | n + 1, cs =>
    match skipSpace cs with
    | [] => none
    | c :: rest =>
      if c = '"' then (readString rest).map fun (s, rest) => (.str (String.ofList s), rest)
      else if c = '[' then
        if (skipSpace rest).head? = some ']' then some (.arr [], (skipSpace rest).tail)
        else (readItems n rest).map fun (vs, rest) => (.arr vs, rest)
      else if c = '{' then
        if (skipSpace rest).head? = some '}' then some (.obj [], (skipSpace rest).tail)
        else (readMembers n rest).map fun (ms, rest) => (.obj ms, rest)
      else if c = '-' ∨ c.isDigit = true then
        (readNumber (c :: rest)).map fun (x, rest) => (.num x, rest)
      else readLiteral (c :: rest)

def readItems : Nat → List Char → Option (List Json × List Char)
  | 0, _ => none
  | n + 1, cs =>
    match readValue n cs with
    | none => none
    | some (v, rest) =>
      match skipSpace rest with
      | ',' :: rest => (readItems n rest).map fun (vs, rest) => (v :: vs, rest)
      | ']' :: rest => some ([v], rest)
      | _ => none

def readMembers : Nat → List Char → Option (List (String × Json) × List Char)
  | 0, _ => none
  | n + 1, cs =>
    match skipSpace cs with
    | '"' :: rest =>
      match readString rest with
      | none => none
      | some (k, rest) =>
        match skipSpace rest with
        | ':' :: rest =>
          match readValue n rest with
          | none => none
          | some (v, rest) =>
            match skipSpace rest with
            | ',' :: rest =>
              (readMembers n rest).map fun (ms, rest) => ((String.ofList k, v) :: ms, rest)
            | '}' :: rest => some ([(String.ofList k, v)], rest)
            | _ => none
        | _ => none
    | _ => none

end

def parse (s : String) : Option Json :=
  match readValue (2 * s.toList.length) s.toList with
  | some (v, rest) => if skipSpace rest = [] then some v else none
  | none => none

/-! The text that stringify writes, as characters. -/

mutual

def text : Json → List Char
  | .arr [] => ['[', ']']
  | .arr (v :: vs) => '[' :: (text v ++ textItems vs)
  | .obj [] => ['{', '}']
  | .obj ((k, v) :: ms) => '{' :: ((quote k).toList ++ ':' :: (text v ++ textMembers ms))
  | .null => "null".toList
  | .bool b => (if b then "true" else "false").toList
  | .num n => (toString n).toList
  | .str s => (quote s).toList

/-- The items after the first one. -/
def textItems : List Json → List Char
  | [] => [']']
  | v :: vs => ',' :: (text v ++ textItems vs)

def textMembers : List (String × Json) → List Char
  | [] => ['}']
  | (k, v) :: ms => ',' :: ((quote k).toList ++ ':' :: (text v ++ textMembers ms))

end

mutual

theorem toList_stringify : ∀ j : Json, (stringify j).toList = text j
  | .null => rfl
  | .bool b => by cases b <;> rfl
  | .num n => rfl
  | .str s => rfl
  | .arr [] => by simp [stringify, stringifyItems, text]
  | .arr (v :: vs) => by
    have hvs := toList_items vs (stringify v)
    rw [toList_stringify v] at hvs
    simp [stringify, stringifyItems, text, ← hvs]
  | .obj [] => by simp [stringify, stringifyMembers, text]
  | .obj ((k, v) :: ms) => by
    have hms := toList_members ms (quote k ++ ":" ++ stringify v)
    simp only [String.toList_append, toList_stringify v, List.append_assoc] at hms
    simp only [stringify, stringifyMembers, text, String.toList_append, List.append_assoc]
    exact congrArg (List.cons '{') hms

theorem toList_items : ∀ (vs : List Json) (s : String),
    (",".intercalate (s :: stringifyItems vs)).toList ++ [']'] = s.toList ++ textItems vs
  | [], s => by simp [stringifyItems, textItems]
  | v :: vs, s => by
    have hvs := toList_items vs (stringify v)
    rw [toList_stringify v] at hvs
    simp only [stringifyItems, String.intercalate_cons_cons, String.toList_append,
      List.append_assoc, hvs, textItems]
    rfl

theorem toList_members : ∀ (ms : List (String × Json)) (s : String),
    (",".intercalate (s :: stringifyMembers ms)).toList ++ ['}'] = s.toList ++ textMembers ms
  | [], s => by simp [stringifyMembers, textMembers]
  | (k, v) :: ms, s => by
    have hms := toList_members ms (quote k ++ ":" ++ stringify v)
    simp only [String.toList_append, toList_stringify v, List.append_assoc] at hms
    simp only [stringifyMembers, String.intercalate_cons_cons, String.toList_append,
      List.append_assoc, hms, textMembers]
    rfl

end

/-! Reading back what was written. -/

theorem hexValue_hexDigit : ∀ d < 16, hexValue (hexDigit d) = some d := by decide

theorem readHex_control {c : Char} (h : c.toNat < 32) :
    readHex '0' '0' (hexDigit (c.toNat / 16)) (hexDigit (c.toNat % 16)) = some c := by
  have hzero : hexValue '0' = some 0 := rfl
  have hhigh := hexValue_hexDigit (c.toNat / 16) (by omega)
  have hlow := hexValue_hexDigit (c.toNat % 16) (by omega)
  have hsum : ((0 * 16 + 0) * 16 + c.toNat / 16) * 16 + c.toNat % 16 = c.toNat := by omega
  have hvalid : c.toNat.isValidChar := Or.inl (by omega)
  simp only [readHex, hzero, hhigh, hlow, Option.bind_eq_bind, Option.bind_some, hsum, hvalid,
    if_true, Char.ofNat_toNat]

/-- Each character is read back from its escape. -/
theorem readString_escape (c : Char) (rest : List Char) :
    readString ((escape c).toList ++ rest) =
      (readString rest).map fun (cs, rest) => (c :: cs, rest) := by
  unfold escape
  split
  · cases hr : readString rest <;> simp [readString, unescape, hr]
  · cases hr : readString rest <;> simp [readString, unescape, hr]
  · cases hr : readString rest <;> simp [readString, unescape, hr]
  · cases hr : readString rest <;> simp [readString, unescape, hr]
  · cases hr : readString rest <;> simp [readString, unescape, hr]
  · rename_i hquote hback hnl hcr htab
    split
    · rename_i hb
      have hc : c = Char.ofNat 8 := Char.ext hb
      cases hr : readString rest <;> simp [readString, unescape, hr, hc]
    · split
      · rename_i hf
        have hc : c = Char.ofNat 12 := Char.ext hf
        cases hr : readString rest <;> simp [readString, unescape, hr, hc]
      · split
        · rename_i hlow
          have hread := readHex_control hlow
          cases hr : readString rest <;> simp [readString, hread, hr]
        · rename_i hlow
          rw [String.toList_ofList, List.cons_append, List.nil_append, readString.eq_def]
          split
          · rename_i heq
            exact absurd (List.cons.inj heq).1 hquote
          · rename_i heq
            exact absurd (List.cons.inj heq).1 hback
          · rename_i heq
            exact absurd (List.cons.inj heq).1 hback
          · rename_i heq
            obtain ⟨rfl, rfl⟩ := List.cons.inj heq
            rw [if_neg hlow]
          · contradiction

theorem readString_quoted (s : List Char) (rest : List Char) :
    readString (s.flatMap (fun c => (escape c).toList) ++ '"' :: rest) = some (s, rest) := by
  induction s with
  | nil => simp [readString]
  | cons c s ih => simp [readString_escape, ih]

theorem toList_quote (s : String) :
    (quote s).toList = '"' :: (s.toList.flatMap (fun c => (escape c).toList) ++ ['"']) := by
  simp [quote, String.toList_join, List.flatMap_map]

theorem leadingZero_digits (n : Nat) {rest : List Char} (h : Stops rest) :
    leadingZero (Nat.toDigits 10 n ++ rest) = false ∧
      leadingZero ('-' :: (Nat.toDigits 10 n ++ rest)) = false := by
  have hhead : n = 0 ∨ ∃ c cs, Nat.toDigits 10 n = c :: cs ∧ c ≠ '0' ∧ c ≠ '-' := by
    induction n using Nat.strongRecOn with
    | ind n ih =>
      rw [Nat.toDigits_eq_if (by decide)]
      split
      · rename_i hlt
        have hone : ∀ d < 10, d = 0 ∨ (d.digitChar ≠ '0' ∧ d.digitChar ≠ '-') := by decide
        rcases hone n hlt with h0 | ⟨hz, hm⟩
        · exact Or.inl h0
        · exact Or.inr ⟨_, _, rfl, hz, hm⟩
      · rename_i hge
        rcases ih (n / 10) (by omega) with h0 | ⟨c, cs, hcs, hz, hm⟩
        · omega
        · rw [hcs]
          exact Or.inr ⟨c, _, rfl, hz, hm⟩
  rcases hhead with rfl | ⟨c, cs, hcs, hz, hm⟩
  · have hzero : Nat.toDigits 10 0 = ['0'] := rfl
    rw [hzero]
    cases rest with
    | nil => exact ⟨rfl, rfl⟩
    | cons c cs =>
      have hc : c.isDigit = false := h c rfl
      exact ⟨hc, hc⟩
  · rw [hcs, List.cons_append]
    constructor
    · unfold leadingZero
      split
      · rename_i heq
        exact absurd (List.cons.inj heq).1 hm
      · rename_i heq
        exact absurd (List.cons.inj heq).1 hz
      · rfl
    · unfold leadingZero
      split
      · rename_i heq
        exact absurd (List.cons.inj (List.cons.inj heq).2).1 hz
      · rename_i heq
        exact absurd (List.cons.inj heq).1 (by decide)
      · rfl

theorem readNumber_toString (n : Int) {rest : List Char} (h : Stops rest) :
    readNumber ((toString n).toList ++ rest) = some (n, rest) := by
  have hread := readInteger_toString n h
  have hzero : leadingZero ((toString n).toList ++ rest) = false := by
    cases n with
    | ofNat n =>
      rw [Int.ofNat_eq_natCast, toList_toString_ofNat]
      exact (leadingZero_digits n h).1
    | negSucc n =>
      rw [toList_toString_negSucc]
      exact (leadingZero_digits (n + 1) h).2
  rw [readNumber, hzero, hread, if_neg Bool.false_ne_true]

mutual

/-- How many nested calls it takes to read a value. -/
def weight : Json → Nat
  | .arr vs => 1 + weightItems vs
  | .obj ms => 1 + weightMembers ms
  | _ => 1

def weightItems : List Json → Nat
  | [] => 0
  | v :: vs => 1 + weight v + weightItems vs

def weightMembers : List (String × Json) → Nat
  | [] => 0
  | (_, v) :: ms => 1 + weight v + weightMembers ms

end

theorem stops_textItems (vs : List Json) (rest : List Char) : Stops (textItems vs ++ rest) := by
  cases vs <;> simp [Stops, textItems]

theorem stops_textMembers (ms : List (String × Json)) (rest : List Char) :
    Stops (textMembers ms ++ rest) := by
  cases ms with
  | nil => simp [Stops, textMembers]
  | cons m ms =>
    obtain ⟨k, v⟩ := m
    simp [Stops, textMembers]

/-- A value begins with no space and with no closing bracket. -/
theorem text_head (j : Json) : ∃ c cs, text j = c :: cs ∧ isSpace c = false ∧ c ≠ ']' := by
  cases j with
  | null => exact ⟨'n', _, rfl, rfl, by decide⟩
  | bool b => cases b with
    | true => exact ⟨'t', _, rfl, rfl, by decide⟩
    | false => exact ⟨'f', _, rfl, rfl, by decide⟩
  | num n =>
    obtain ⟨c, cs, hcs, hc⟩ := toString_head n
    refine ⟨c, cs, hcs, ?_, ?_⟩
    · rcases hc with hc | rfl
      · simp only [isSpace, Bool.or_eq_false_iff, beq_eq_false_iff_ne]
        refine ⟨⟨⟨?_, ?_⟩, ?_⟩, ?_⟩ <;> rintro rfl <;> contradiction
      · rfl
    · rintro rfl
      rcases hc with hc | hc <;> contradiction
  | str s => exact ⟨'"', _, toList_quote s, rfl, by decide⟩
  | arr vs => cases vs with
    | nil => exact ⟨'[', _, rfl, rfl, by decide⟩
    | cons v vs => exact ⟨'[', _, rfl, rfl, by decide⟩
  | obj ms => cases ms with
    | nil => exact ⟨'{', _, rfl, rfl, by decide⟩
    | cons m ms => exact ⟨'{', _, rfl, rfl, by decide⟩

theorem skipSpace_cons {c : Char} {cs : List Char} (h : isSpace c = false) :
    skipSpace (c :: cs) = c :: cs := by
  simp [skipSpace, h]

theorem skipSpace_text (j : Json) (rest : List Char) :
    skipSpace (text j ++ rest) = text j ++ rest := by
  obtain ⟨c, cs, hcs, hc, _⟩ := text_head j
  rw [hcs, List.cons_append, skipSpace_cons hc]

theorem skipSpace_quote (k : String) (rest : List Char) :
    skipSpace ((quote k).toList ++ rest) = (quote k).toList ++ rest := by
  rw [toList_quote, List.cons_append, skipSpace_cons rfl]

mutual

theorem readValue_text : ∀ (j : Json) (n : Nat) (rest : List Char), weight j ≤ n → Stops rest →
    readValue n (text j ++ rest) = some (j, rest)
  | j, 0, rest, hn, _ => by cases j <;> simp [weight] at hn
  | .null, n + 1, rest, _, _ => by simp [text, readValue, skipSpace, isSpace, readLiteral]
  | .bool true, n + 1, rest, _, _ => by simp [text, readValue, skipSpace, isSpace, readLiteral]
  | .bool false, n + 1, rest, _, _ => by simp [text, readValue, skipSpace, isSpace, readLiteral]
  | .num x, n + 1, rest, _, hrest => by
    obtain ⟨c, cs, hcs, hc⟩ := toString_head x
    have hread := readNumber_toString x hrest
    have hspace := skipSpace_text (.num x) rest
    have hnot : c ≠ '"' ∧ c ≠ '[' ∧ c ≠ '{' := by
      refine ⟨?_, ?_, ?_⟩ <;> rintro rfl <;> rcases hc with hc | hc <;> contradiction
    simp only [text, hcs, List.cons_append] at hread hspace ⊢
    simp only [readValue, hspace, hnot.1, hnot.2.1, hnot.2.2, if_false, hread, Option.map_some]
    rw [if_pos (Or.symm hc)]
  | .str s, n + 1, rest, _, _ => by
    have hspace := skipSpace_quote s rest
    simp only [text, toList_quote, List.cons_append, List.append_assoc, List.nil_append] at hspace ⊢
    simp [readValue, hspace, readString_quoted]
  | .arr [], n + 1, rest, _, _ => by simp [text, readValue, skipSpace, isSpace]
  | .arr (v :: vs), n + 1, rest, hn, _ => by
    simp only [weight] at hn
    have hitems := readItems_text v vs n rest (by omega)
    have hspace := skipSpace_text v (textItems vs ++ rest)
    obtain ⟨c, cs, hcs, _, hc⟩ := text_head v
    have hhead : (text v ++ (textItems vs ++ rest)).head? ≠ some ']' := by
      rw [hcs]
      simpa using hc
    simp only [text, List.cons_append, List.append_assoc]
    simp only [readValue, skipSpace_cons (show isSpace '[' = false from rfl), hspace, hhead, hitems,
      if_false, if_true, Option.map_some, Char.reduceEq]
  | .obj [], n + 1, rest, _, _ => by simp [text, readValue, skipSpace, isSpace]
  | .obj ((k, v) :: ms), n + 1, rest, hn, _ => by
    simp only [weight] at hn
    have hmembers := readMembers_text k v ms n rest (by omega)
    have hspace := skipSpace_quote k (':' :: (text v ++ (textMembers ms ++ rest)))
    have hhead : ((quote k).toList ++ ':' :: (text v ++ (textMembers ms ++ rest))).head? ≠
        some '}' := by simp [toList_quote]
    simp only [text, List.cons_append, List.append_assoc]
    simp only [readValue, skipSpace_cons (show isSpace '{' = false from rfl), hspace, hhead,
      hmembers, if_false, if_true, Option.map_some, Char.reduceEq]

theorem readItems_text : ∀ (v : Json) (vs : List Json) (n : Nat) (rest : List Char),
    weightItems (v :: vs) ≤ n →
    readItems n (text v ++ (textItems vs ++ rest)) = some (v :: vs, rest)
  | v, vs, 0, rest, hn => by simp [weightItems] at hn
  | v, [], n + 1, rest, hn => by
    simp only [weightItems] at hn
    have hv := readValue_text v n (textItems [] ++ rest) (by omega) (stops_textItems [] rest)
    rw [readItems, hv]
    rfl
  | v, w :: ws, n + 1, rest, hn => by
    simp only [weightItems] at hn
    have hv := readValue_text v n (textItems (w :: ws) ++ rest) (by omega)
      (stops_textItems (w :: ws) rest)
    have hws := readItems_text w ws n rest (by simp only [weightItems]; omega)
    rw [readItems, hv]
    simp only [textItems, List.cons_append, List.append_assoc,
      skipSpace_cons (show isSpace ',' = false from rfl), hws, Option.map_some]

theorem readMembers_text : ∀ (k : String) (v : Json) (ms : List (String × Json)) (n : Nat)
    (rest : List Char), weightMembers ((k, v) :: ms) ≤ n →
    readMembers n ((quote k).toList ++ ':' :: (text v ++ (textMembers ms ++ rest))) =
      some ((k, v) :: ms, rest)
  | k, v, ms, 0, rest, hn => by simp [weightMembers] at hn
  | k, v, [], n + 1, rest, hn => by
    simp only [weightMembers] at hn
    have hv := readValue_text v n (textMembers [] ++ rest) (by omega) (stops_textMembers [] rest)
    have hspace := skipSpace_quote k (':' :: (text v ++ (textMembers [] ++ rest)))
    simp only [toList_quote, List.cons_append, List.append_assoc, List.nil_append] at hspace ⊢
    simp only [readMembers, hspace, readString_quoted,
      skipSpace_cons (show isSpace ':' = false from rfl), hv, String.ofList_toList]
    rfl
  | k, v, (l, w) :: ns, n + 1, rest, hn => by
    simp only [weightMembers] at hn
    have hv := readValue_text v n (textMembers ((l, w) :: ns) ++ rest) (by omega)
      (stops_textMembers ((l, w) :: ns) rest)
    have hns := readMembers_text l w ns n rest (by simp only [weightMembers]; omega)
    have hspace := skipSpace_quote k (':' :: (text v ++ (textMembers ((l, w) :: ns) ++ rest)))
    simp only [toList_quote k, List.cons_append, List.append_assoc, List.nil_append] at hspace ⊢
    simp only [readMembers, hspace, readString_quoted,
      skipSpace_cons (show isSpace ':' = false from rfl), hv, String.ofList_toList]
    simp only [textMembers, List.cons_append, List.append_assoc,
      skipSpace_cons (show isSpace ',' = false from rfl), hns, Option.map_some]

end

mutual

theorem weight_le : ∀ j : Json, weight j ≤ 2 * (text j).length
  | .null => by decide
  | .bool true => by decide
  | .bool false => by decide
  | .num x => by
    obtain ⟨c, cs, hcs, _⟩ := toString_head x
    simp only [weight, text, hcs, List.length_cons]
    omega
  | .str s => by
    simp only [weight, text, toList_quote, List.length_cons]
    omega
  | .arr [] => by decide
  | .arr (v :: vs) => by
    have hv := weight_le v
    have hvs := weightItems_le vs
    simp only [weight, weightItems, text, List.length_cons, List.length_append]
    omega
  | .obj [] => by decide
  | .obj ((k, v) :: ms) => by
    have hv := weight_le v
    have hms := weightMembers_le ms
    simp only [weight, weightMembers, text, List.length_cons, List.length_append]
    omega

theorem weightItems_le : ∀ vs : List Json, weightItems vs + 2 ≤ 2 * (textItems vs).length
  | [] => by decide
  | v :: vs => by
    have hv := weight_le v
    have hvs := weightItems_le vs
    simp only [weightItems, textItems, List.length_cons, List.length_append]
    omega

theorem weightMembers_le : ∀ ms : List (String × Json),
    weightMembers ms + 2 ≤ 2 * (textMembers ms).length
  | [] => by decide
  | (k, v) :: ms => by
    have hv := weight_le v
    have hms := weightMembers_le ms
    simp only [weightMembers, textMembers, List.length_cons, List.length_append]
    omega

end

/-- JSON.parse undoes JSON.stringify. -/
theorem parse_stringify (j : Json) : parse (stringify j) = some j := by
  have hread := readValue_text j (2 * (text j).length) [] (weight_le j) (by simp [Stops])
  rw [List.append_nil] at hread
  rw [parse, toList_stringify, hread]
  rfl

end Json

end HighVolumeBooking

import HighVolumeBooking.Common.JsonParse

namespace HighVolumeBooking

/-- A value of the code: what JSON can carry, and besides it undefined and dates. -/
inductive JsValue where
  | undefined
  | null
  | bool (b : Bool)
  | num (n : Int)
  | str (s : String)
  | date (d : Int)
  | arr (items : List JsValue)
  | obj (members : List (String × JsValue))

namespace JsValue

mutual

/-- The value as JSON.stringify writes it: undefined is left out, which makes it
null in an array, and a date becomes its ISO string. -/
def toJson : JsValue → Option Json
  | .undefined => none
  | .null => some .null
  | .bool b => some (.bool b)
  | .num n => some (.num n)
  | .str s => some (.str s)
  | .date d => some (.date d)
  | .arr items => some (.arr (toJsonItems items))
  | .obj members => some (.obj (toJsonMembers members))

def toJsonItems : List JsValue → List Json
  | [] => []
  | v :: vs => (toJson v).getD .null :: toJsonItems vs

def toJsonMembers : List (String × JsValue) → List (String × Json)
  | [] => []
  | (k, v) :: ms => ((toJson v).map fun j => (k, j)).toList ++ toJsonMembers ms

end

mutual

def ofJson : Json → JsValue
  | .null => .null
  | .bool b => .bool b
  | .num n => .num n
  | .str s => .str s
  | .arr items => .arr (ofJsonItems items)
  | .obj members => .obj (ofJsonMembers members)

def ofJsonItems : List Json → List JsValue
  | [] => []
  | v :: vs => ofJson v :: ofJsonItems vs

def ofJsonMembers : List (String × Json) → List (String × JsValue)
  | [] => []
  | (k, v) :: ms => (k, ofJson v) :: ofJsonMembers ms

end

mutual

/-- Neither undefined nor a date, all the way down. -/
def plain : JsValue → Bool
  | .undefined => false
  | .date _ => false
  | .arr items => plainItems items
  | .obj members => plainMembers members
  | _ => true

def plainItems : List JsValue → Bool
  | [] => true
  | v :: vs => plain v && plainItems vs

def plainMembers : List (String × JsValue) → Bool
  | [] => true
  | (_, v) :: ms => plain v && plainMembers ms

end

/-- JSON.stringify, with none for undefined. -/
def stringify (v : JsValue) : Option String := v.toJson.map Json.stringify

/-- JSON.parse, with none for a SyntaxError. -/
def parse (text : String) : Option JsValue := (Json.parse text).map ofJson

/-- Reading a property, with none for a TypeError. -/
def get (v : JsValue) (name : String) : Option JsValue :=
  match v with
  | .undefined => none
  | .null => none
  | .obj members => some ((members.reverse.lookup name).getD .undefined)
  | _ => some .undefined

theorem toJsonItems_eq_map (vs : List JsValue) :
    toJsonItems vs = vs.map fun v => v.toJson.getD .null := by
  induction vs with
  | nil => rfl
  | cons v vs ih => rw [toJsonItems, ih, List.map_cons]

theorem ofJsonItems_eq_map (js : List Json) : ofJsonItems js = js.map ofJson := by
  induction js with
  | nil => rfl
  | cons j js ih => rw [ofJsonItems, ih, List.map_cons]

theorem parse_stringify {v : JsValue} {text : String} (h : v.stringify = some text) :
    parse text = v.toJson.map ofJson := by
  obtain ⟨j, hj, rfl⟩ := Option.map_eq_some_iff.mp h
  rw [parse, Json.parse_stringify, hj]

mutual

/-- JSON carries plain values as they are. -/
theorem ofJson_of_plain : (v : JsValue) → v.plain = true → v.toJson.map ofJson = some v
  | .undefined, h => by simp [plain] at h
  | .null, _ => rfl
  | .bool _, _ => rfl
  | .num _, _ => rfl
  | .str _, _ => rfl
  | .date _, h => by simp [plain] at h
  | .arr items, h => by
    rw [plain] at h
    simp [toJson, ofJson, ofJsonItems_of_plain items h]
  | .obj members, h => by
    rw [plain] at h
    simp [toJson, ofJson, ofJsonMembers_of_plain members h]

theorem ofJsonItems_of_plain :
    (vs : List JsValue) → plainItems vs = true → ofJsonItems (toJsonItems vs) = vs
  | [], _ => rfl
  | v :: vs, h => by
    simp only [plainItems, Bool.and_eq_true] at h
    obtain ⟨j, hj, hv⟩ := Option.map_eq_some_iff.mp (ofJson_of_plain v h.1)
    simp [toJsonItems, ofJsonItems, hj, hv, ofJsonItems_of_plain vs h.2]

theorem ofJsonMembers_of_plain : (ms : List (String × JsValue)) → plainMembers ms = true →
    ofJsonMembers (toJsonMembers ms) = ms
  | [], _ => rfl
  | (k, v) :: ms, h => by
    simp only [plainMembers, Bool.and_eq_true] at h
    obtain ⟨j, hj, hv⟩ := Option.map_eq_some_iff.mp (ofJson_of_plain v h.1)
    simp [toJsonMembers, ofJsonMembers, hj, hv, ofJsonMembers_of_plain ms h.2]

end

mutual

/-- What was parsed has neither. -/
theorem plain_ofJson : (j : Json) → (ofJson j).plain = true
  | .null => rfl
  | .bool _ => rfl
  | .num _ => rfl
  | .str _ => rfl
  | .arr items => by
    rw [ofJson, plain]
    exact plain_ofJsonItems items
  | .obj members => by
    rw [ofJson, plain]
    exact plain_ofJsonMembers members

theorem plain_ofJsonItems : (js : List Json) → plainItems (ofJsonItems js) = true
  | [] => rfl
  | j :: js => by
    rw [ofJsonItems, plainItems, plain_ofJson j, plain_ofJsonItems js]
    rfl

theorem plain_ofJsonMembers :
    (ms : List (String × Json)) → plainMembers (ofJsonMembers ms) = true
  | [] => rfl
  | (k, j) :: ms => by
    rw [ofJsonMembers, plainMembers, plain_ofJson j, plain_ofJsonMembers ms]
    rfl

end

/-- JSON.parse undoes JSON.stringify on the values without undefined and dates,
and on no others. -/
theorem ofJson_toJson_iff {v : JsValue} : v.toJson.map ofJson = some v ↔ v.plain = true := by
  constructor
  · intro h
    obtain ⟨j, _, rfl⟩ := Option.map_eq_some_iff.mp h
    exact plain_ofJson j
  · exact ofJson_of_plain v

end JsValue

end HighVolumeBooking

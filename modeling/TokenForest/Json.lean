import TokenForest.Binary64

/-!
# JSON values

Integers and binary64 numbers are kept apart, and an object is the list of its members in order of first appearance.
-/

namespace TokenForest

/-- A JSON value. -/
inductive Json where
  | null
  | bool (value : Bool)
  | int (value : Int)
  | float (value : Binary64)
  | str (value : String)
  | arr (items : List Json)
  | obj (members : List (String × Json))
  deriving Inhabited

namespace Json

/-! ## Equality -/

mutual

/-- Equality of values is decided member by member. -/
def decEq : (a b : Json) → Decidable (a = b)
  | null, null => isTrue rfl
  | bool a, bool b => if h : a = b then isTrue (by rw [h]) else isFalse (by simp [h])
  | int a, int b => if h : a = b then isTrue (by rw [h]) else isFalse (by simp [h])
  | float a, float b => if h : a = b then isTrue (by rw [h]) else isFalse (by simp [h])
  | str a, str b => if h : a = b then isTrue (by rw [h]) else isFalse (by simp [h])
  | arr a, arr b =>
    match decEqItems a b with
    | isTrue h => isTrue (by rw [h])
    | isFalse h => isFalse (by simp [h])
  | obj a, obj b =>
    match decEqMembers a b with
    | isTrue h => isTrue (by rw [h])
    | isFalse h => isFalse (by simp [h])
  | null, bool _ | null, int _ | null, float _ | null, str _ | null, arr _ | null, obj _ => isFalse (by simp)
  | bool _, null | bool _, int _ | bool _, float _ | bool _, str _ | bool _, arr _ | bool _, obj _ => isFalse (by simp)
  | int _, null | int _, bool _ | int _, float _ | int _, str _ | int _, arr _ | int _, obj _ => isFalse (by simp)
  | float _, null | float _, bool _ | float _, int _ | float _, str _ | float _, arr _ | float _, obj _ => isFalse (by simp)
  | str _, null | str _, bool _ | str _, int _ | str _, float _ | str _, arr _ | str _, obj _ => isFalse (by simp)
  | arr _, null | arr _, bool _ | arr _, int _ | arr _, float _ | arr _, str _ | arr _, obj _ => isFalse (by simp)
  | obj _, null | obj _, bool _ | obj _, int _ | obj _, float _ | obj _, str _ | obj _, arr _ => isFalse (by simp)

/-- Equality of arrays, item by item. -/
def decEqItems : (a b : List Json) → Decidable (a = b)
  | [], [] => isTrue rfl
  | [], _ :: _ => isFalse (by simp)
  | _ :: _, [] => isFalse (by simp)
  | x :: xs, y :: ys =>
    match decEq x y, decEqItems xs ys with
    | isTrue h, isTrue h' => isTrue (by rw [h, h'])
    | isFalse h, _ => isFalse (by simp [h])
    | _, isFalse h => isFalse (by simp [h])

/-- Equality of objects, member by member. -/
def decEqMembers : (a b : List (String × Json)) → Decidable (a = b)
  | [], [] => isTrue rfl
  | [], _ :: _ => isFalse (by simp)
  | _ :: _, [] => isFalse (by simp)
  | (k, x) :: xs, (l, y) :: ys =>
    match decEq x y, decEqMembers xs ys with
    | isTrue h, isTrue h' => if hk : k = l then isTrue (by rw [h, h', hk]) else isFalse (by simp [hk])
    | isFalse h, _ => isFalse (by simp [h])
    | _, isFalse h => isFalse (by simp [h])

end

instance : DecidableEq Json := decEq

/-! ## Members -/

/-- The members with `key` bound to `value`: in its old place when the key is there, at the end otherwise. -/
def setMember (members : List (String × Json)) (key : String) (value : Json) : List (String × Json) :=
  if members.any (·.1 == key) then members.map (fun m => if m.1 == key then (key, value) else m)
  else members ++ [(key, value)]

/-- The value of a member of an object. -/
def get? : Json → String → Option Json
  | obj members, key => members.lookup key
  | _, _ => none

/-- An optional integer, null when absent. -/
def ofInt? : Option Int → Json
  | some n => int n
  | none => null

/-- An optional text, null when absent. -/
def ofStr? : Option String → Json
  | some s => str s
  | none => null

/-- An array of texts. -/
def strings (xs : List String) : Json := arr (xs.map str)

/-- The value counts as absent in a text field: null, false, zero or empty. -/
def isBlank : Json → Bool
  | null => true
  | bool b => !b
  | int n => n = 0
  | float x => x.sameValue 0
  | str s => s = ""
  | arr items => items.isEmpty
  | obj members => members.isEmpty

/-! ## Rearranged values -/

/-- The second value is the first one with members in another order, and with items in another order or repeated, at any depth. Members
are put in another order where no key is used twice. -/
inductive Rearranged : Json → Json → Prop where
  | refl (j : Json) : Rearranged j j
  | trans {i j k : Json} (h : Rearranged i j) (h' : Rearranged j k) : Rearranged i k
  | members {ms ns : List (String × Json)} (hkeys : (ms.map (·.1)).Nodup) (h : ms.Perm ns) : Rearranged (obj ms) (obj ns)
  | items {xs ys : List Json} (h : ∀ x, x ∈ xs ↔ x ∈ ys) : Rearranged (arr xs) (arr ys)
  | member (front back : List (String × Json)) (key : String) {v w : Json} (h : Rearranged v w) :
    Rearranged (obj (front ++ (key, v) :: back)) (obj (front ++ (key, w) :: back))
  | item (front back : List Json) {v w : Json} (h : Rearranged v w) : Rearranged (arr (front ++ v :: back)) (arr (front ++ w :: back))

end Json

end TokenForest

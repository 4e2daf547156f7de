import TokenForest.Json.Lines

/-!
# Values read from files

A file knows integers of 64 bits and finite numbers only, whatever is written in it: this holds of every token, every step of the
machine keeps it, and so it holds of the value at the end and of everything inside.
-/

namespace TokenForest

namespace Json

/-- All integers fit into 64 bits and all other numbers are finite, at any depth. -/
inductive Machine : Json → Prop where
  | null : Machine null
  | bool (b : Bool) : Machine (bool b)
  | int {n : Int} (h : fits64 n = true) : Machine (int n)
  | float {x : Binary64} (h : x.isFinite = true) : Machine (float x)
  | str (s : String) : Machine (str s)
  | arr {items : List Json} (h : ∀ v ∈ items, Machine v) : Machine (arr items)
  | obj {members : List (String × Json)} (h : ∀ m ∈ members, Machine m.2) : Machine (obj members)

namespace Machine

variable {v : Json}

theorem members {ms : List (String × Json)} (h : Machine (.obj ms)) : ∀ m ∈ ms, Machine m.2 := by
  cases h with
  | obj h => exact h

theorem setMember {ms : List (String × Json)} {key : String} (h : ∀ m ∈ ms, Machine m.2) (hv : Machine v) :
    ∀ m ∈ setMember ms key v, Machine m.2 := by
  intro m hm
  unfold Json.setMember at hm
  split at hm
  · obtain ⟨old, hold, rfl⟩ := List.mem_map.1 hm
    split
    · exact hv
    · exact h old hold
  · rcases List.mem_append.1 hm with hm | hm
    · exact h m hm
    · rw [List.mem_singleton.1 hm]
      exact hv

/-- A member of a value of this kind is one, too. -/
theorem get? {w : Json} {key : String} (h : Machine v) (hw : v.get? key = some w) : Machine w := by
  cases v with
  | obj ms =>
    obtain ⟨front, back, rfl, _⟩ := List.lookup_eq_some_iff.1 hw
    exact h.members (key, w) (by simp)
  | _ => cases hw

end Machine

/-! ## Tokens -/

variable {dialect : Dialect} {v : Json}

theorem machine_of_integer? (hdialect : dialect.machineNumbers = true) {n : Int} (h : integer? dialect n = some v) : Machine v := by
  simp only [integer?, hdialect, Bool.true_and, Bool.not_eq_true'] at h
  split at h
  · split at h
    · rename_i hfinite
      cases h
      exact .float hfinite
    · cases h
  · rename_i hfits
    cases h
    exact .int (by simpa using hfits)

theorem machine_of_finite? (hdialect : dialect.machineNumbers = true) {x : Option Binary64} (h : number?.finite? dialect x = some v) :
    Machine v := by
  obtain ⟨x, _, h⟩ := Option.bind_eq_some_iff.1 h
  simp only [hdialect, Bool.true_and, Bool.not_eq_true'] at h
  split at h
  · cases h
  · rename_i hfinite
    cases h
    exact .float (by simpa using hfinite)

theorem machine_of_number? (hdialect : dialect.machineNumbers = true) {cs : List Char} (h : number? dialect cs = some v) :
    Machine v := by
  unfold number? at h
  split at h
  -- With a minus and without one the same forms of a number are tried.
  all_goals
    simp only at h
    split at h
    · cases h
    · split at h
      · exact machine_of_integer? hdialect h
      · cases h
      · split at h
        · exact machine_of_finite? hdialect h
        · cases h
      · exact machine_of_finite? hdialect h

theorem machine_of_word? {s : String} (h : word? s = some v) : Machine v := by
  unfold word? at h
  split at h
  · cases h
    exact .null
  · split at h
    · cases h
      exact .bool true
    · split at h
      · cases h
        exact .bool false
      · cases h

/-- A token that is a value is one of a file. -/
def Token.Machine (token : Token) : Prop := ∀ v, token = .atom v → Json.Machine v

theorem machine_atom (h : Machine v) : (Token.atom v).Machine := by
  intro w hw
  cases hw
  exact h

theorem machine_of_punctuation? {c : Char} {token : Token} (h : punctuation? c = some token) : token.Machine := by
  unfold punctuation? at h
  rintro v rfl
  split at h <;> cases h

theorem machine_of_tokensWith? (hdialect : dialect.machineNumbers = true) {fuel : Nat} {cs : List Char} {tokens : List Token}
    (h : tokensWith? dialect fuel cs = some tokens) : ∀ token ∈ tokens, token.Machine := by
  induction fuel generalizing cs tokens with
  | zero =>
    cases cs with
    | nil =>
      cases h
      simp
    | cons c rest => cases h
  | succ fuel ih =>
    cases cs with
    | nil =>
      cases h
      simp
    | cons c rest =>
      rw [tokensWith?] at h
      split at h
      · exact ih h
      split at h
      · rename_i token htoken
        obtain ⟨rest, hrest, rfl⟩ := Option.map_eq_some_iff.1 h
        exact List.forall_mem_cons.2 ⟨machine_of_punctuation? htoken, ih hrest⟩
      split at h
      · obtain ⟨⟨pieces, after⟩, _, h⟩ := Option.bind_eq_some_iff.1 h
        obtain ⟨text, _, h⟩ := Option.bind_eq_some_iff.1 h
        obtain ⟨rest, hrest, h⟩ := Option.bind_eq_some_iff.1 h
        cases h
        exact List.forall_mem_cons.2 ⟨machine_atom (.str _), ih hrest⟩
      split at h
      · obtain ⟨v, hv, h⟩ := Option.bind_eq_some_iff.1 h
        obtain ⟨rest, hrest, h⟩ := Option.bind_eq_some_iff.1 h
        cases h
        exact List.forall_mem_cons.2 ⟨machine_atom (machine_of_number? hdialect hv), ih hrest⟩
      · obtain ⟨v, hv, h⟩ := Option.bind_eq_some_iff.1 h
        obtain ⟨rest, hrest, h⟩ := Option.bind_eq_some_iff.1 h
        cases h
        exact List.forall_mem_cons.2 ⟨machine_atom (machine_of_word? hv), ih hrest⟩

/-! ## The machine -/

/-- The values in an open container are those of a file. -/
def Frame.Machine : Frame → Prop
  | items reversed => ∀ v ∈ reversed, Json.Machine v
  | members done => ∀ m ∈ done, Json.Machine m.2
  | member done _ => ∀ m ∈ done, Json.Machine m.2

/-- The value that has just been completed is one of a file. -/
def Expect.Machine : Expect → Prop
  | afterValue v => Json.Machine v
  | _ => True

variable {token : Token} {expect expect' : Expect} {frames frames' : List Frame}

theorem machine_of_startValue? (htoken : token.Machine) (hframes : ∀ f ∈ frames, f.Machine)
    (h : startValue? dialect token frames = some (expect', frames')) : expect'.Machine ∧ ∀ f ∈ frames', f.Machine := by
  cases token with
  | atom v =>
    cases h
    exact ⟨htoken v rfl, hframes⟩
  | openArray | openObject =>
    simp only [startValue?] at h
    split at h
    · cases h
      exact ⟨trivial, List.forall_mem_cons.2 ⟨by simp [Frame.Machine], hframes⟩⟩
    · cases h
  | _ => cases h

theorem machine_of_startKey? (hframes : ∀ f ∈ frames, f.Machine) (h : startKey? token frames = some (expect', frames')) :
    expect'.Machine ∧ ∀ f ∈ frames', f.Machine := by
  unfold startKey? at h
  split at h
  · cases h
    exact ⟨trivial, hframes⟩
  · cases h

/-- A step of the machine keeps to the values of files. -/
theorem machine_of_step? (htoken : token.Machine) (hexpect : expect.Machine) (hframes : ∀ f ∈ frames, f.Machine)
    (h : step? dialect expect frames token = some (expect', frames')) : expect'.Machine ∧ ∀ f ∈ frames', f.Machine := by
  cases expect with
  | value => exact machine_of_startValue? htoken hframes h
  | firstItem =>
    simp only [step?] at h
    split at h
    · cases h
      exact ⟨.arr (by simp), (List.forall_mem_cons.1 hframes).2⟩
    · exact machine_of_startValue? htoken hframes h
  | firstKey =>
    simp only [step?] at h
    split at h
    · cases h
      exact ⟨.obj (by simp), (List.forall_mem_cons.1 hframes).2⟩
    · exact machine_of_startKey? hframes h
  | key => exact machine_of_startKey? hframes h
  | colon key =>
    simp only [step?] at h
    split at h
    · cases h
      obtain ⟨hdone, hframes⟩ := List.forall_mem_cons.1 hframes
      exact ⟨trivial, List.forall_mem_cons.2 ⟨hdone, hframes⟩⟩
    · cases h
  | afterValue v =>
    have hv : Machine v := hexpect
    simp only [step?] at h
    split at h
    · cases h
      obtain ⟨hitems, hframes⟩ := List.forall_mem_cons.1 hframes
      exact ⟨trivial, List.forall_mem_cons.2 ⟨List.forall_mem_cons.2 ⟨hv, hitems⟩, hframes⟩⟩
    · cases h
      obtain ⟨hitems, hframes⟩ := List.forall_mem_cons.1 hframes
      refine ⟨.arr fun w hw => ?_, hframes⟩
      exact List.forall_mem_cons.2 ⟨hv, hitems⟩ w (List.mem_reverse.1 hw)
    · cases h
      obtain ⟨hdone, hframes⟩ := List.forall_mem_cons.1 hframes
      exact ⟨trivial, List.forall_mem_cons.2 ⟨Machine.setMember hdone hv, hframes⟩⟩
    · cases h
      obtain ⟨hdone, hframes⟩ := List.forall_mem_cons.1 hframes
      exact ⟨.obj (Machine.setMember hdone hv), hframes⟩
    · cases h

/-- What a whole run comes to is a value of a file. -/
theorem machine_of_run? {tokens : List Token} (htokens : ∀ token ∈ tokens, token.Machine) (hexpect : expect.Machine)
    (hframes : ∀ f ∈ frames, f.Machine) (h : run? dialect expect frames tokens = some v) : Machine v := by
  induction tokens generalizing expect frames with
  | nil =>
    unfold run? at h
    split at h
    · cases h
      exact hexpect
    · cases h
    · rename_i heq
      cases heq
  | cons token rest ih =>
    obtain ⟨htoken, hrest⟩ := List.forall_mem_cons.1 htokens
    rw [run?] at h
    split at h
    · rename_i hstep
      obtain ⟨hexpect, hframes⟩ := machine_of_step? htoken hexpect hframes hstep
      exact ih hrest hexpect hframes h
    · cases h

theorem machine_of_read? (hdialect : dialect.machineNumbers = true) {s : String} (h : read? dialect s = some v) : Machine v := by
  obtain ⟨tokens, htokens, h⟩ := Option.bind_eq_some_iff.1 h
  have hvalue : Expect.value.Machine := trivial
  exact machine_of_run? (machine_of_tokensWith? hdialect htokens) hvalue (by simp) h

end Json

end TokenForest

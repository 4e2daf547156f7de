import Mathlib.Data.List.Nodup
import Mathlib.Data.List.Perm.Basic
import Mathlib.Data.Option.Basic
import TokenForest.Proofs.Config.RoundTrip

/-!
# Configurations of rearranged objects

What is read from a JSON object depends neither on the order of members nor on the order and the number of the items in a list of
identifiers: every part of the object is read in the same way, up to the order of a map and to a set.
-/

namespace TokenForest

namespace Json

namespace Rearranged

variable {p q : Json}

/-- Rearranging makes an object of an object and an array of an array, and leaves everything else as it is. -/
theorem shape (h : Rearranged p q) :
    p = q ∨ (∃ ms ns, p = obj ms ∧ q = obj ns) ∨ ∃ xs ys, p = arr xs ∧ q = arr ys := by
  induction h with
  | refl j => exact .inl rfl
  | trans _ _ ih ih' =>
    rcases ih with rfl | ⟨ms, ns, rfl, rfl⟩ | ⟨xs, ys, rfl, rfl⟩
    · exact ih'
    · rcases ih' with rfl | ⟨_, ns', _, rfl⟩ | ⟨_, _, hne, _⟩
      · exact .inr (.inl ⟨ms, ns, rfl, rfl⟩)
      · exact .inr (.inl ⟨ms, ns', rfl, rfl⟩)
      · cases hne
    · rcases ih' with rfl | ⟨_, _, hne, _⟩ | ⟨_, ys', _, rfl⟩
      · exact .inr (.inr ⟨xs, ys, rfl, rfl⟩)
      · cases hne
      · exact .inr (.inr ⟨xs, ys', rfl, rfl⟩)
  | members _ _ => exact .inr (.inl ⟨_, _, rfl, rfl⟩)
  | member _ _ _ _ _ => exact .inr (.inl ⟨_, _, rfl, rfl⟩)
  | items _ => exact .inr (.inr ⟨_, _, rfl, rfl⟩)
  | item _ _ _ _ => exact .inr (.inr ⟨_, _, rfl, rfl⟩)

theorem optional_refl (x : Option Json) : Option.Rel Rearranged x x := by
  cases x with
  | none => exact .none
  | some j => exact .some (.refl j)

theorem optional_trans {x y z : Option Json} (h : Option.Rel Rearranged x y) (h' : Option.Rel Rearranged y z) :
    Option.Rel Rearranged x z := by
  cases h with
  | none => exact h'
  | some h =>
    cases h' with
    | some h' => exact .some (h.trans h')

/-- A key stands for rearranged values, or for none. -/
theorem get? (h : Rearranged p q) (key : String) : Option.Rel Rearranged (p.get? key) (q.get? key) := by
  induction h with
  | refl j => exact optional_refl _
  | trans _ _ ih ih' => exact optional_trans ih ih'
  | members hkeys h =>
    simp only [Json.get?, lookup_eq_of_perm hkeys h]
    exact optional_refl _
  | member front back name h _ =>
    simp only [Json.get?, List.lookup_append, List.lookup_cons]
    cases List.lookup key front with
    | some j => exact optional_refl _
    | none =>
      cases key == name with
      | true => exact .some h
      | false => exact optional_refl _
  | items _ => exact .none
  | item _ _ _ _ => exact .none

end Rearranged

end Json

namespace Config

namespace Form

/-! ## Values of parts -/

variable {α β : Type}

/-- The value of a part of the right form. -/
def value? : Form α → Option α
  | value a => some a
  | wrong _ => none

@[simp]
theorem value?_value (a : α) : (value a).value? = some a := rfl

@[simp]
theorem value?_wrong (details : List Detail) : (wrong details : Form α).value? = none := rfl

theorem eq_value_of_map {f : α → β} {x : Form α} {b : β} (h : x.map f = value b) : ∃ a, x = value a ∧ f a = b := by
  cases x with
  | value a => exact ⟨a, rfl, by simpa [map] using h⟩
  | wrong details => cases h

theorem eq_value_of_both {x : Form α} {y : Form β} {p : α × β} (h : both x y = value p) : x = value p.1 ∧ y = value p.2 := by
  cases x <;> cases y <;> cases h
  exact ⟨rfl, rfl⟩

theorem value?_map (f : α → β) (x : Form α) : (x.map f).value? = x.value?.map f := by
  cases x <;> rfl

theorem value?_both (x : Form α) (y : Form β) : (both x y).value? = x.value?.bind (fun a => y.value?.map (a, ·)) := by
  cases x <;> cases y <;> rfl

theorem value?_all (xs : List (Form α)) : (all xs).value? = xs.mapM value? := by
  induction xs with
  | nil => rfl
  | cons x xs ih =>
    rw [all, value?_map, value?_both, List.mapM_cons, ← ih]
    cases x <;> cases (all xs) <;> rfl

/-- Two parts have related values, or neither has one. -/
def Agree (R : α → α → Prop) (x y : Form α) : Prop := Option.Rel R x.value? y.value?

variable {R : α → α → Prop} {S : β → β → Prop}

theorem Agree.both {x x' : Form α} {y y' : Form β} (hx : Agree R x x') (hy : Agree S y y') :
    Agree (fun a b => R a.1 b.1 ∧ S a.2 b.2) (both x y) (Form.both x' y') := by
  unfold Agree at hx hy ⊢
  rw [value?_both, value?_both]
  generalize x.value? = a, x'.value? = a', y.value? = b, y'.value? = b' at hx hy
  cases hx with
  | none => exact .none
  | some hx =>
    cases hy with
    | none => exact .none
    | some hy => exact .some ⟨hx, hy⟩

theorem Agree.map {k : α → β} {x y : Form α} (h : Agree R x y) (hk : ∀ a b, R a b → S (k a) (k b)) :
    Agree S (x.map k) (y.map k) := by
  unfold Agree at h ⊢
  rw [value?_map, value?_map]
  generalize x.value? = a, y.value? = b at h
  cases h with
  | none => exact .none
  | some h => exact .some (hk _ _ h)

theorem Agree.of_eq (hR : Equivalence R) {x y : Form α} (h : x.value? = y.value?) : Agree R x y := by
  unfold Agree
  rw [h]
  cases y.value? with
  | none => exact .none
  | some a => exact .some (hR.refl a)

theorem Agree.trans (hR : Equivalence R) {x y z : Form α} (h : Agree R x y) (h' : Agree R y z) :
    Agree R x z := by
  unfold Agree at h h' ⊢
  generalize x.value? = a, y.value? = b, z.value? = c at h h'
  cases h with
  | none => exact h'
  | some h =>
    cases h' with
    | some h' => exact .some (hR.trans h h')

theorem value?_eq_of_agree {x y : Form α} (h : Agree Eq x y) : x.value? = y.value? := by
  unfold Agree at h
  generalize x.value? = a, y.value? = b at h ⊢
  cases h with
  | none => rfl
  | some h => rw [h]

end Form

open Form Json

variable {α : Type} {R : α → α → Prop} {read : String → Json → Form α}

/-- The reading of a part gives related values for rearranged ones. -/
def Insensitive (R : α → α → Prop) (read : String → Json → Form α) : Prop :=
  ∀ place place' v w, Rearranged v w → Agree R (read place v) (read place' w)

/-! ## Single values -/

/-- What a reader reads at a place is what it reads anywhere. -/
theorem value?_form {β : Type} (read : Reader β) (place : String) (v : Json) : (read.form place v).value? = (read v).toOption := by
  unfold Reader.form
  cases read v <;> rfl

/-- Values that are neither arrays nor objects are not rearranged. -/
theorem Reader.Typed.insensitive {β : Type} {read : Reader β} {write : β → Json} (h : read.Typed write) :
    Insensitive Eq read.form := by
  have hrefused : ∀ place v, (read v).isOk = false → (read.form place v).value? = none := by
    intro place v hv
    rw [value?_form]
    cases hread : read v with
    | error kind => rfl
    | ok a =>
      rw [hread] at hv
      cases hv
  intro place place' v w hvw
  rcases hvw.shape with rfl | ⟨ms, ns, rfl, rfl⟩ | ⟨xs, ys, rfl, rfl⟩
  · exact Agree.of_eq eq_equivalence (by rw [value?_form, value?_form])
  · exact Agree.of_eq eq_equivalence (by rw [hrefused _ _ (h.object ms), hrefused _ _ (h.object ns)])
  · exact Agree.of_eq eq_equivalence (by rw [hrefused _ _ (h.array xs), hrefused _ _ (h.array ys)])

theorem typed_lax : Readers.lax.Typed :=
  ⟨⟨fun _ => rfl, fun _ => rfl, fun _ => rfl⟩, ⟨fun _ => rfl, fun _ => rfl, fun _ => rfl⟩, ⟨fun _ => rfl, fun _ => rfl, fun _ => rfl⟩⟩

variable {readers : Readers}

/-! ## Lists and maps -/

/-- The value of a list of integers is that of its items, wherever they stand. -/
theorem value?_readIntegers (place : String) (xs : List Json) :
    (readIntegers readers place (.arr xs)).value? = xs.mapM (fun x => (readers.integer x).toOption) := by
  have hitems : ∀ i, (readItems readers place i xs).mapM value? = xs.mapM (fun x => (readers.integer x).toOption) := by
    induction xs with
    | nil => exact fun i => rfl
    | cons x xs ih =>
      intro i
      rw [readItems, List.mapM_cons, List.mapM_cons, ih, value?_form]
  rw [readIntegers, value?_all, hitems]

/-- The value of a map of numbers is that of its members. -/
theorem value?_readFloats (place : String) (ms : List (String × Json)) :
    (readFloats readers place (.obj ms)).value? = ms.mapM (fun m => (readers.number m.2).toOption.map (m.1, ·)) := by
  rw [readFloats, value?_all, List.mapM_map]
  congr 1
  funext m
  rw [Function.comp_apply, value?_map, value?_form]

/-- The same set of identifiers. -/
def SameSet (ids ids' : List Int) : Prop := Staging.idSet ids = Staging.idSet ids'

theorem sameSet_equivalence : Equivalence SameSet := ⟨fun _ => rfl, Eq.symm, Eq.trans⟩

/-- The same map. -/
def SameMap (pairs pairs' : List (String × Binary64)) : Prop := sortPairs pairs = sortPairs pairs'

theorem sameMap_equivalence : Equivalence SameMap := ⟨fun _ => rfl, Eq.symm, Eq.trans⟩

/-- Lists of the same items give the same set of results. -/
theorem rel_mapM_of_mem_iff {ι κ : Type} {f : ι → Option κ} {xs ys : List ι} (h : ∀ x, x ∈ xs ↔ x ∈ ys) :
    Option.Rel (fun zs zs' => ∀ z, z ∈ zs ↔ z ∈ zs') (xs.mapM f) (ys.mapM f) := by
  -- A list has results when every item has one, and both have the same items.
  have hexists : ∀ {xs ys : List ι} {zs : List κ}, (∀ x, x ∈ ys → x ∈ xs) → xs.mapM f = some zs → ∃ zs', ys.mapM f = some zs' := by
    intro xs ys zs hsub hzs
    refine exists_mapM_eq_some fun y hy => ?_
    obtain ⟨z, _, hz⟩ := exists_of_forall₂_left (mapM_eq_some_iff.1 hzs) (hsub y hy)
    exact ⟨z, hz⟩
  cases hxs : xs.mapM f with
  | none =>
    cases hys : ys.mapM f with
    | none => exact .none
    | some zs =>
      obtain ⟨zs', hzs'⟩ := hexists (fun x => (h x).1) hys
      rw [hxs] at hzs'
      cases hzs'
  | some zs =>
    obtain ⟨zs', hzs'⟩ := hexists (fun x => (h x).2) hxs
    rw [hzs']
    refine .some fun z => ?_
    simp only [mem_of_mapM_eq_some hxs, mem_of_mapM_eq_some hzs', h]

theorem insensitive_readIntegers (hreaders : readers.Typed) : Insensitive SameSet (readIntegers readers) := by
  intro place place' v w h
  induction h generalizing place place' with
  | refl j =>
    refine Agree.of_eq sameSet_equivalence ?_
    cases j with
    | arr xs => rw [value?_readIntegers, value?_readIntegers]
    | _ => rfl
  | trans _ _ ih ih' => exact (ih place place').trans sameSet_equivalence (ih' place' place')
  | members _ _ => exact .none
  | member _ _ _ _ _ => exact .none
  | items h =>
    have hresults := rel_mapM_of_mem_iff (f := fun x => (readers.integer x).toOption) h
    unfold Agree
    rw [value?_readIntegers, value?_readIntegers]
    generalize List.mapM (fun x => (readers.integer x).toOption) _ = ids at hresults ⊢
    generalize List.mapM (fun x => (readers.integer x).toOption) _ = ids' at hresults ⊢
    cases hresults with
    | none => exact .none
    | some h => exact .some (Staging.idSet_congr h)
  | @item front back v w h _ =>
    have hsame := value?_eq_of_agree (hreaders.integer.insensitive "" "" v w h)
    rw [value?_form, value?_form] at hsame
    refine Agree.of_eq sameSet_equivalence ?_
    rw [value?_readIntegers, value?_readIntegers, List.mapM_append, List.mapM_append, List.mapM_cons, List.mapM_cons, hsame]

/-- The names of the results are those of the members. -/
theorem nodup_names_of_mapM {ms : List (String × Json)} {pairs : List (String × Binary64)} (hkeys : (ms.map (·.1)).Nodup)
    (h : ms.mapM (fun m => (readers.number m.2).toOption.map (m.1, ·)) = some pairs) : (pairs.map (·.1)).Nodup := by
  have hnames : ms.map (·.1) = pairs.map (·.1) := by
    rw [← List.forall₂_eq_eq_eq, List.forall₂_map_left_iff, List.forall₂_map_right_iff]
    refine (mapM_eq_some_iff.1 h).imp fun m p hp => ?_
    obtain ⟨x, _, rfl⟩ := Option.map_eq_some_iff.1 hp
    rfl
  rwa [← hnames]

theorem insensitive_readFloats (hreaders : readers.Typed) : Insensitive SameMap (readFloats readers) := by
  intro place place' v w h
  induction h generalizing place place' with
  | refl j =>
    refine Agree.of_eq sameMap_equivalence ?_
    cases j with
    | obj ms => rw [value?_readFloats, value?_readFloats]
    | _ => rfl
  | trans _ _ ih ih' => exact (ih place place').trans sameMap_equivalence (ih' place' place')
  | @members ms ns hkeys h =>
    have hresults := rel_mapM_of_mem_iff (f := fun m : String × Json => (readers.number m.2).toOption.map (m.1, ·)) fun _ => h.mem_iff
    unfold Agree
    rw [value?_readFloats, value?_readFloats]
    generalize hpairs : ms.mapM (fun m => (readers.number m.2).toOption.map (m.1, ·)) = pairs at hresults ⊢
    generalize hpairs' : ns.mapM (fun m => (readers.number m.2).toOption.map (m.1, ·)) = pairs' at hresults ⊢
    cases hresults with
    | none => exact .none
    | some hmem =>
      have hnames := nodup_names_of_mapM hkeys hpairs
      have hnames' := nodup_names_of_mapM ((h.map _).nodup_iff.1 hkeys) hpairs'
      exact .some (sortPairs_eq_of_perm hnames ((List.perm_ext_iff_of_nodup hnames.of_map hnames'.of_map).2 hmem))
  | @member front back key v w h _ =>
    have hsame := value?_eq_of_agree (hreaders.number.insensitive "" "" v w h)
    rw [value?_form, value?_form] at hsame
    refine Agree.of_eq sameMap_equivalence ?_
    rw [value?_readFloats, value?_readFloats, List.mapM_append, List.mapM_append, List.mapM_cons, List.mapM_cons, hsame]
  | items _ => exact .none
  | item _ _ _ _ => exact .none

/-! ## Fields of objects -/

variable {ms ns : List (String × Json)}

theorem agree_optional (hR : Equivalence R) (hread : Insensitive R read) (h : Rearranged (.obj ms) (.obj ns)) (place place' key : String)
    (absent : α) : Agree R (optional read place ms key absent) (optional read place' ns key absent) := by
  have hvalues : Option.Rel Rearranged (ms.lookup key) (ns.lookup key) := h.get? key
  unfold optional
  generalize ms.lookup key = v, ns.lookup key = w at hvalues
  cases hvalues with
  | none => exact Agree.of_eq hR rfl
  | some h => exact hread _ _ _ _ h

theorem agree_required (hread : Insensitive R read) (h : Rearranged (.obj ms) (.obj ns)) (place place' key : String) :
    Agree R (required read place ms key) (required read place' ns key) := by
  have hvalues : Option.Rel Rearranged (ms.lookup key) (ns.lookup key) := h.get? key
  unfold required
  generalize ms.lookup key = v, ns.lookup key = w at hvalues
  cases hvalues with
  | none => exact .none
  | some h => exact hread _ _ _ _ h

theorem value?_onlyKeys (place : String) (ms : List (String × Json)) (keys : List String) :
    (onlyKeys place ms keys).value? = some () ↔ ∀ key, (ms.lookup key).isSome = true → key ∈ keys := by
  have hfilter : (onlyKeys place ms keys).value? = some () ↔ ms.filter (fun m => !keys.contains m.1) = [] := by
    unfold onlyKeys
    cases ms.filter (fun m => !keys.contains m.1) <;> simp
  rw [hfilter, List.filter_eq_nil_iff]
  constructor
  · intro h key hkey
    obtain ⟨m, hm, hmkey⟩ := List.lookup_isSome_iff.1 hkey
    simpa [← beq_iff_eq.1 hmkey] using h m hm
  · intro h m hm
    simpa using h m.1 (List.lookup_isSome_iff.2 ⟨m, hm, beq_self_eq_true m.1⟩)

theorem agree_onlyKeys (h : Rearranged (.obj ms) (.obj ns)) (place place' : String) (keys : List String) :
    Agree Eq (onlyKeys place ms keys) (onlyKeys place' ns keys) := by
  have hkeys : ∀ key, (ms.lookup key).isSome = (ns.lookup key).isSome := by
    intro key
    have hvalues : Option.Rel Rearranged (ms.lookup key) (ns.lookup key) := h.get? key
    generalize ms.lookup key = v, ns.lookup key = w at hvalues
    cases hvalues <;> rfl
  refine Agree.of_eq eq_equivalence (Option.ext fun u => ?_)
  rw [value?_onlyKeys, value?_onlyKeys]
  simp only [hkeys]

/-- Where fields are read in the same way, so is the part. -/
theorem insensitive_of_fields
    (hobj : ∀ place place' ms ns, Rearranged (.obj ms) (.obj ns) → Agree R (read place (.obj ms)) (read place' (.obj ns)))
    (hR : Equivalence R) (harr : ∀ place xs, (read place (.arr xs)).value? = none)
    (hplace : ∀ place place' v, (∀ ms, v ≠ .obj ms) → (read place v).value? = (read place' v).value?) : Insensitive R read := by
  intro place place' v w h
  rcases h.shape with rfl | ⟨ms, ns, rfl, rfl⟩ | ⟨xs, ys, rfl, rfl⟩
  · by_cases hv : ∃ ms, v = .obj ms
    · obtain ⟨ms, rfl⟩ := hv
      exact hobj place place' ms ms h
    · exact Agree.of_eq hR (hplace place place' v fun ms hms => hv ⟨ms, hms⟩)
  · exact hobj place place' ms ns h
  · exact Agree.of_eq hR (by rw [harr, harr])

theorem insensitive_readWeights (hreaders : readers.Typed) : Insensitive Eq (readWeights readers) := by
  refine insensitive_of_fields (fun place place' ms ns h => ?_) eq_equivalence (fun _ _ => rfl) ?_
  · refine Agree.map (Agree.both (agree_required hreaders.number.insensitive h _ _ _) <|
      Agree.both (agree_required hreaders.number.insensitive h _ _ _) <| Agree.both (agree_required hreaders.number.insensitive h _ _ _) <|
      Agree.both (agree_optional eq_equivalence hreaders.number.insensitive h _ _ _ _) (agree_onlyKeys h _ _ _)) ?_
    rintro ⟨a, b, g, d, _⟩ ⟨a', b', g', d', _⟩ ⟨rfl, rfl, rfl, rfl, _⟩
    rfl
  · intro place place' v hv
    cases v with
    | obj ms => exact absurd rfl (hv ms)
    | _ => rfl

theorem insensitive_readStaging (hreaders : readers.Typed) : Insensitive Eq (readStaging readers) := by
  refine insensitive_of_fields (fun place place' ms ns h => ?_) eq_equivalence (fun _ _ => rfl) ?_
  · refine Agree.map (Agree.both (agree_optional eq_equivalence hreaders.truth.insensitive h _ _ _ _) <|
      Agree.both (agree_optional sameSet_equivalence (insensitive_readIntegers hreaders) h _ _ _ _) <|
      Agree.both (agree_optional sameSet_equivalence (insensitive_readIntegers hreaders) h _ _ _ _) <|
      Agree.both (agree_optional sameSet_equivalence (insensitive_readIntegers hreaders) h _ _ _ _) (agree_onlyKeys h _ _ _)) ?_
    rintro ⟨enabled, stages, processes, phases, _⟩ ⟨enabled', stages', processes', phases', _⟩ ⟨rfl, hstages, hprocesses, hphases, _⟩
    simp only [SameSet] at hstages hprocesses hphases
    simp only [hstages, hprocesses, hphases]
  · intro place place' v hv
    cases v with
    | obj ms => exact absurd rfl (hv ms)
    | _ => rfl

/-- The same fields, but for the order of the maps. -/
structure Fields.Same (f g : Fields) : Prop where
  weights : f.weights = g.weights
  thetaMin : f.thetaMin = g.thetaMin
  intentThresholds : SameMap f.intentThresholds g.intentThresholds
  componentMinimums : SameMap f.componentMinimums g.componentMinimums
  staging : f.staging = g.staging
  equivalenceTolerance : f.equivalenceTolerance = g.equivalenceTolerance
  maxWorkers : f.maxWorkers = g.maxWorkers

theorem agree_readFields (hreaders : readers.Typed) (h : Rearranged (.obj ms) (.obj ns)) :
    Agree Fields.Same (readFields readers (.obj ms)) (readFields readers (.obj ns)) := by
  refine Agree.map (Agree.both (agree_optional eq_equivalence (insensitive_readWeights hreaders) h _ _ _ _) <|
    Agree.both (agree_optional eq_equivalence hreaders.number.insensitive h _ _ _ _) <|
    Agree.both (agree_optional sameMap_equivalence (insensitive_readFloats hreaders) h _ _ _ _) <|
    Agree.both (agree_optional sameMap_equivalence (insensitive_readFloats hreaders) h _ _ _ _) <|
    Agree.both (agree_optional eq_equivalence (insensitive_readStaging hreaders) h _ _ _ _) <|
    Agree.both (agree_optional eq_equivalence hreaders.number.insensitive h _ _ _ _) <|
    Agree.both (agree_optional eq_equivalence hreaders.integer.insensitive h _ _ _ _) (agree_onlyKeys h _ _ _)) ?_
  rintro ⟨_, _, _, _, _, _, _, _⟩ ⟨_, _, _, _, _, _, _, _⟩ ⟨hweights, htheta, hthresholds, hminimums, hstaging, htolerance, hworkers, _⟩
  exact ⟨hweights, htheta, hthresholds, hminimums, hstaging, htolerance, hworkers⟩

/-! ## Configurations -/

theorem ofFields_eq_of_same {f g : Fields} (h : f.Same g) : ofFields f = ofFields g := by
  have hthresholds : sortPairs f.intentThresholds = sortPairs g.intentThresholds := h.intentThresholds
  have hminimums : sortPairs f.componentMinimums = sortPairs g.componentMinimums := h.componentMinimums
  simp only [ofFields, h.weights, h.thetaMin, hthresholds, hminimums, h.staging, h.equivalenceTolerance, h.maxWorkers]

/-- Whether there is a configuration in an object, and which one, depends on the fields. -/
theorem toOption_ofJsonWith (p : Json) : (ofJsonWith readers p).toOption = (readFields readers p).value?.bind (fun f => (ofFields f).toOption) := by
  unfold ofJsonWith
  cases readFields readers p <;> rfl

theorem toOption_ofJsonWith_eq (hreaders : readers.Typed) {p q : Json} (h : Rearranged p q) :
    (ofJsonWith readers p).toOption = (ofJsonWith readers q).toOption := by
  rcases h.shape with rfl | ⟨ms, ns, rfl, rfl⟩ | ⟨xs, ys, rfl, rfl⟩
  · rfl
  · have hfields := agree_readFields hreaders h
    unfold Agree at hfields
    rw [toOption_ofJsonWith, toOption_ofJsonWith]
    generalize (readFields readers (.obj ms)).value? = f, (readFields readers (.obj ns)).value? = g at hfields
    cases hfields with
    | none => rfl
    | some hsame => rw [Option.bind_some, Option.bind_some, ofFields_eq_of_same hsame]
  · rfl

/-- The sets of a staging part that is read are ascending. -/
theorem ascending_of_readStaging {place : String} {v : Json} {s : Staging} (h : readStaging readers place v = .value s) : s.Ascending := by
  cases v with
  | obj members =>
    obtain ⟨⟨enabled, stages, processes, phases, _⟩, _, rfl⟩ := eq_value_of_map h
    exact ⟨Staging.ascending_idSet _, Staging.ascending_idSet _, Staging.ascending_idSet _⟩
  | _ => cases h

theorem ascending_of_readFields {p : Json} {f : Fields} (h : readFields readers p = .value f) : f.staging.Ascending := by
  cases p with
  | obj members =>
    obtain ⟨⟨_, _, _, _, staging, _, _, _⟩, hparts, rfl⟩ := eq_value_of_map h
    obtain ⟨_, hparts⟩ := eq_value_of_both hparts
    obtain ⟨_, hparts⟩ := eq_value_of_both hparts
    obtain ⟨_, hparts⟩ := eq_value_of_both hparts
    obtain ⟨_, hparts⟩ := eq_value_of_both hparts
    obtain ⟨hstaging, _⟩ := eq_value_of_both hparts
    simp only [optional] at hstaging
    split at hstaging
    · exact ascending_of_readStaging hstaging
    · cases hstaging
      exact ⟨.nil, .nil, .nil⟩
  | _ => cases h

theorem valid_of_ofFields {f : Fields} {c : Config} (h : ofFields f = .ok c) : c.validate = .ok () ∧ c.staging = f.staging := by
  unfold ofFields at h
  cases hweights : f.weights with
  | some w =>
    simp only [hweights] at h
    obtain ⟨_, _, h⟩ := ok_of_bind h
    obtain ⟨_, hvalid, h⟩ := ok_of_bind h
    cases h
    exact ⟨hvalid, rfl⟩
  | none =>
    simp only [hweights, ok_bind] at h
    -- The weights of the default need not be looked into.
    generalize Weights.default = weights at h
    obtain ⟨_, hvalid, h⟩ := ok_of_bind h
    cases h
    exact ⟨hvalid, rfl⟩

/-- What is read is valid, and its sets are ascending. -/
theorem valid_of_ofJsonWith {p : Json} {c : Config} (h : ofJsonWith readers p = .ok c) : c.validate = .ok () ∧ c.staging.Ascending := by
  unfold ofJsonWith at h
  split at h
  · cases h
  · rename_i fields hfields
    obtain ⟨hvalid, hstaging⟩ := valid_of_ofFields h
    exact ⟨hvalid, hstaging ▸ ascending_of_readFields hfields⟩

/-- Reading with any readers that check types and keep values of the right type. A valid configuration that is written is read back as
it was, and written again in the same way. Whatever is read is a valid configuration, and rearranged objects give the same one or
none. -/
theorem form_faithful (hreaders : readers.Typed) :
    (∀ c : Config, c.staging.Ascending → c.validate = .ok () →
        ∃ c', ofJsonWith readers c.toJson = .ok c' ∧ c'.Same c ∧ c'.toJson = c.toJson) ∧
      (∀ (p : Json) (c : Config), ofJsonWith readers p = .ok c → c.validate = .ok () ∧ c.staging.Ascending) ∧
      ∀ p q : Json, Rearranged p q → (ofJsonWith readers p).toOption = (ofJsonWith readers q).toOption :=
  ⟨fun c hsets h => ⟨c.sorted, ofJsonWith_toJson hreaders hsets h, same_sorted c, toJson_sorted c⟩,
    fun _ _ h => valid_of_ofJsonWith h, fun _ _ h => toOption_ofJsonWith_eq hreaders h⟩

/-- A configuration with staging and with thresholds that are not in order. -/
def demanding : Config where
  weights := .default
  thetaMin := 0.8
  intentThresholds := [(.query, 0.875), (.assign, 0.9375)]
  componentMinimums := [("positional", 0.25), ("lexical", 0.5)]
  staging := ⟨true, [1, 3], [], [2]⟩
  equivalenceTolerance := 0.05
  maxWorkers := 2

theorem validate_demanding : demanding.validate = .ok () := by decide +kernel

/-- The readers that take numerals and words, on an object with its members in one order and in the other one and a list of identifiers
with a repetition. -/
theorem form_faithful_demanding : Readers.lax.Typed ∧
    (∃ c, ofJson demanding.toJson = .ok c ∧ c.Same demanding ∧ c.toJson = demanding.toJson) ∧
      demanding.sorted.validate = .ok () ∧
      (ofJson (.obj [("max_workers", .int 2), ("staging", .obj [("stage_ids", .arr [.int 3, .int 1, .int 3])])])).toOption =
        (ofJson (.obj [("staging", .obj [("stage_ids", .arr [.int 1, .int 3])]), ("max_workers", .int 2)])).toOption := by
  have hsets : demanding.staging.Ascending := ⟨by decide, by decide, by decide⟩
  obtain ⟨hwritten, hvalid, hrearranged⟩ := form_faithful typed_lax
  refine ⟨typed_lax, hwritten demanding hsets validate_demanding,
    (hvalid demanding.toJson demanding.sorted (ofJsonWith_toJson typed_lax hsets validate_demanding)).1, hrearranged _ _ ?_⟩
  have hitems : Rearranged (.arr [.int 3, .int 1, .int 3]) (.arr [.int 1, .int 3]) := .items (by simp [or_comm])
  have hstaging := (hitems.member [] [] "stage_ids").member [("max_workers", .int 2)] [] "staging"
  exact hstaging.trans (.members (by decide) (List.Perm.swap _ _ _))

end Config

end TokenForest

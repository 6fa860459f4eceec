import Mathlib

/-!
# GraphSON

The answers of gremlin-server are JSON in which GraphSON 2 and 3 tag a value with
its type.  `unwrap` takes the tags off: containers become those of Python, any
other tagged value a pair of the tag and the value.
-/

namespace HugeGraphValidation.Bench

variable {F : Type}

/-- A value of JSON that is no container; `F` are the floats. -/
inductive Scalar (F : Type) where
  | null
  | bool (b : Bool)
  | int (n : ℤ)
  | float (x : F)
  | str (s : String)
  deriving DecidableEq

/-- What `json.loads` returns. -/
inductive Json (F : Type) where
  | scalar (s : Scalar F)
  | list (xs : List (Json F))
  | dict (es : List (String × Json F))

/-- What `unwrap` returns. -/
inductive Py (F : Type) where
  | scalar (s : Scalar F)
  | list (xs : List (Py F))
  | dict (es : List (Py F × Py F))
  | tuple (t v : Py F)

mutual

/-- The value itself, in the wider type. -/
def Json.py : Json F → Py F
  | .scalar s => .scalar s
  | .list xs => .list (pyAll xs)
  | .dict es => .dict (pyEntries es)

def pyAll : List (Json F) → List (Py F)
  | [] => []
  | x :: xs => x.py :: pyAll xs

def pyEntries : List (String × Json F) → List (Py F × Py F)
  | [] => []
  | (k, x) :: es => (.scalar (.str k), x.py) :: pyEntries es

end

/-! ## Dictionaries of Python -/

/-- What is used of the floats: their equality, the number each one is (infinite
ones and NaN are none) and the number that `str` spells. -/
structure Floats (F : Type) where
  eq : F → F → Bool
  rat : F → Option ℚ
  spelled : F → Option ℚ

section Equality

variable (fl : Floats F)

def Scalar.number : Scalar F → Option ℚ
  | .bool b => some (if b then 1 else 0)
  | .int n => some n
  | .float x => fl.rat x
  | _ => none

/-- `a == b` -/
def Scalar.same : Scalar F → Scalar F → Bool
  | .null, .null => true
  | .str s, .str s' => s = s'
  | .float x, .float y => fl.eq x y
  | a, b =>
      match a.number fl, b.number fl with
      | some x, some y => x = y
      | _, _ => false

/-- `a == b` for two hashable values -/
def Py.same : Py F → Py F → Bool
  | .scalar a, .scalar b => a.same fl b
  | .tuple t v, .tuple t' v' => t.same t' && v.same v'
  | _, _ => false

def Py.hashable : Py F → Bool
  | .scalar _ => true
  | .tuple t v => t.hashable && v.hashable
  | _ => false

/-- `d[k] = v`, which keeps an equal key that is there. -/
def setItem (d : List (Py F × Py F)) (e : Py F × Py F) : List (Py F × Py F) :=
  match d with
  | [] => [e]
  | (k, v) :: d => if k.same fl e.1 then (k, e.2) :: d else (k, v) :: setItem d e

/-- `{k: v for k, v in es}`; nothing for a key that is not hashable. -/
def dictOf (es : List (Py F × Py F)) : Option (Py F) :=
  if es.all fun e ↦ e.1.hashable then some (.dict (es.foldl (setItem fl) [])) else none

end Equality

/-! ## unwrap -/

def isListTag : Json F → Bool
  | .scalar (.str s) => s = "g:List" || s = "g:Set"
  | _ => false

def isMapTag : Json F → Bool
  | .scalar (.str s) => s = "g:Map"
  | _ => false

/-- The characters of a string, as strings. -/
def charsOf (s : String) : List (Py F) :=
  s.toList.map fun c ↦ .scalar (.str (String.singleton c))

/-- `zip(it, it)` -/
def pairUp : List (Py F) → List (Py F × Py F)
  | k :: v :: rest => (k, v) :: pairUp rest
  | _ => []

section Unwrap

variable (fl : Floats F)

mutual

/-- `unwrap(v)`; nothing where it raises a `TypeError`. -/
def unwrap : Json F → Option (Py F)
  | .scalar s => some (.scalar s)
  | .list xs => (unwrapAll xs).map .list
  | .dict es =>
      match es.lookup "@type" with
      | none => some (Json.dict es).py
      | some t => unwrapValue t es

def unwrapAll : List (Json F) → Option (List (Py F))
  | [] => some []
  | x :: xs => do
      let x ← unwrap x
      let xs ← unwrapAll xs
      some (x :: xs)

/-- The keys and values of a list in turn; one key left over is not looked at. -/
def unwrapPairs : List (Json F) → Option (List (Py F × Py F))
  | k :: x :: rest => do
      let k ← unwrap k
      let x ← unwrap x
      let rest ← unwrapPairs rest
      some ((k, x) :: rest)
  | _ => some []

/-- The tagged value among the entries; without one it is `None`. -/
def unwrapValue (t : Json F) : List (String × Json F) → Option (Py F)
  | [] =>
      if isListTag t || isMapTag t then none else some (.tuple t.py (.scalar .null))
  | (k, v) :: es =>
      if k = "@value" then
        if isListTag t then
          match v with
          | .list xs => (unwrapAll xs).map .list
          | .scalar (.str s) => some (.list (charsOf s))
          | .dict es => some (.list (es.map fun e ↦ .scalar (.str e.1)))
          | .scalar _ => none
        else if isMapTag t then
          match v with
          | .list xs => (unwrapPairs xs).bind (dictOf fl)
          | .scalar (.str s) => dictOf fl (pairUp (charsOf s))
          | .dict es => dictOf fl (pairUp (es.map fun e ↦ .scalar (.str e.1)))
          | .scalar _ => none
        else (unwrap v).map (.tuple t.py)
      else unwrapValue t es

end

end Unwrap

/-! ## Typed values -/

/-- The tag of a value that is no container. -/
structure ScalarTag where
  name : String
  not_list : name ≠ "g:List"
  not_set : name ≠ "g:Set"
  not_map : name ≠ "g:Map"

/-- The fields of an element; none of them is a tag. -/
structure Fields (F : Type) where
  entries : List (String × Json F)
  untagged : entries.lookup "@type" = none

/-- A result of Gremlin, as the server sees it. -/
inductive GValue (F : Type) where
  | plain (s : Scalar F)
  | typed (tag : ScalarTag) (s : Scalar F)
  | element (tag : ScalarTag) (fields : Fields F)
  | list (xs : List (GValue F))
  | set (xs : List (GValue F))
  | map (es : List (GValue F × GValue F))

def tagged (tag : String) (v : Json F) : Json F :=
  .dict [("@type", .scalar (.str tag)), ("@value", v)]

mutual

/-- GraphSON 3 -/
def graphson : GValue F → Json F
  | .plain s => .scalar s
  | .typed tag s => tagged tag.name (.scalar s)
  | .element tag fields => tagged tag.name (.dict fields.entries)
  | .list xs => tagged "g:List" (.list (graphsonAll xs))
  | .set xs => tagged "g:Set" (.list (graphsonAll xs))
  | .map es => tagged "g:Map" (.list (graphsonEntries es))

def graphsonAll : List (GValue F) → List (Json F)
  | [] => []
  | x :: xs => graphson x :: graphsonAll xs

def graphsonEntries : List (GValue F × GValue F) → List (Json F)
  | [] => []
  | (k, x) :: es => graphson k :: graphson x :: graphsonEntries es

end

mutual

/-- The result as a value of Python: tagged scalars and elements keep their tag,
and what is inside an element stays as it was sent. -/
def GValue.py : GValue F → Py F
  | .plain s => .scalar s
  | .typed tag s => .tuple (.scalar (.str tag.name)) (.scalar s)
  | .element tag fields => .tuple (.scalar (.str tag.name)) (Json.dict fields.entries).py
  | .list xs => .list (GValue.pyAll xs)
  | .set xs => .list (GValue.pyAll xs)
  | .map es => .dict (GValue.pyEntries es)

def GValue.pyAll : List (GValue F) → List (Py F)
  | [] => []
  | x :: xs => x.py :: GValue.pyAll xs

def GValue.pyEntries : List (GValue F × GValue F) → List (Py F × Py F)
  | [] => []
  | (k, x) :: es => (k.py, x.py) :: GValue.pyEntries es

end

/-- Only these are hashable in Python. -/
def GValue.IsScalar : GValue F → Prop
  | .plain _ => True
  | .typed _ _ => True
  | _ => False

mutual

/-- The keys of every map in the value are scalars. -/
def GValue.Keyed : GValue F → Prop
  | .list xs => GValue.KeyedAll xs
  | .set xs => GValue.KeyedAll xs
  | .map es => GValue.KeyedEntries es
  | _ => True

def GValue.KeyedAll : List (GValue F) → Prop
  | [] => True
  | x :: xs => x.Keyed ∧ GValue.KeyedAll xs

def GValue.KeyedEntries : List (GValue F × GValue F) → Prop
  | [] => True
  | (k, x) :: es => k.IsScalar ∧ x.Keyed ∧ GValue.KeyedEntries es

end

section Distinct

variable (fl : Floats F)

mutual

/-- No two keys of a map in the value are equal in Python. -/
def GValue.Distinct : GValue F → Prop
  | .list xs => GValue.DistinctAll xs
  | .set xs => GValue.DistinctAll xs
  | .map es => GValue.DistinctEntries es ∧
      (GValue.pyEntries es).Pairwise fun e e' ↦ e.1.same fl e'.1 = false
  | _ => True

def GValue.DistinctAll : List (GValue F) → Prop
  | [] => True
  | x :: xs => x.Distinct ∧ GValue.DistinctAll xs

def GValue.DistinctEntries : List (GValue F × GValue F) → Prop
  | [] => True
  | (_, x) :: es => x.Distinct ∧ GValue.DistinctEntries es

end

end Distinct

mutual

/-- The value with every set taken for a list. -/
def GValue.ordered : GValue F → GValue F
  | .list xs => .list (GValue.orderedAll xs)
  | .set xs => .list (GValue.orderedAll xs)
  | .map es => .map (GValue.orderedEntries es)
  | v => v

def GValue.orderedAll : List (GValue F) → List (GValue F)
  | [] => []
  | x :: xs => x.ordered :: GValue.orderedAll xs

def GValue.orderedEntries : List (GValue F × GValue F) → List (GValue F × GValue F)
  | [] => []
  | (k, x) :: es => (k.ordered, x.ordered) :: GValue.orderedEntries es

end

/-! ## Dictionaries without equal keys -/

section Dictionaries

variable {fl : Floats F}

theorem setItem_of_new {d : List (Py F × Py F)} {e : Py F × Py F}
    (h : ∀ x ∈ d, x.1.same fl e.1 = false) : setItem fl d e = d ++ [e] := by
  induction d with
  | nil => rfl
  | cons x d ih =>
      obtain ⟨k, v⟩ := x
      have hk : k.same fl e.1 = false := h (k, v) List.mem_cons_self
      rw [setItem, hk, ih fun x hx ↦ h x (List.mem_cons_of_mem _ hx)]
      rfl

theorem foldl_setItem {es d : List (Py F × Py F)}
    (h : (d ++ es).Pairwise fun e e' ↦ e.1.same fl e'.1 = false) :
    es.foldl (setItem fl) d = d ++ es := by
  induction es generalizing d with
  | nil => simp
  | cons e es ih =>
      have hnew : ∀ x ∈ d, x.1.same fl e.1 = false := by
        intro x hx
        exact (List.pairwise_append.mp h).2.2 x hx e List.mem_cons_self
      have hmove : d ++ e :: es = (d ++ [e]) ++ es := by simp
      rw [List.foldl_cons, setItem_of_new hnew, hmove]
      exact ih (hmove ▸ h)

theorem dictOf_of_pairwise {es : List (Py F × Py F)} (hhash : es.all fun e ↦ e.1.hashable)
    (h : es.Pairwise fun e e' ↦ e.1.same fl e'.1 = false) : dictOf fl es = some (.dict es) := by
  rw [dictOf, if_pos hhash, foldl_setItem (by simpa using h), List.nil_append]

theorem isSome_dictOf {es : List (Py F × Py F)} :
    (dictOf fl es).isSome ↔ es.all fun e ↦ e.1.hashable := by
  unfold dictOf
  split
  · rename_i h
    simp only [Option.isSome_some, true_iff]
    exact h
  · rename_i h
    simpa using h

end Dictionaries

/-! ## Taking off what GraphSON put on -/

section RoundTrip

variable {fl : Floats F}

theorem unwrap_list_tag (xs : List (Json F)) :
    unwrap fl (tagged "g:List" (.list xs)) = (unwrapAll fl xs).map .list := rfl

theorem unwrap_set_tag (xs : List (Json F)) :
    unwrap fl (tagged "g:Set" (.list xs)) = (unwrapAll fl xs).map .list := rfl

theorem unwrap_map_tag (xs : List (Json F)) :
    unwrap fl (tagged "g:Map" (.list xs)) = (unwrapPairs fl xs).bind (dictOf fl) := rfl

theorem unwrap_scalar_tag (tag : ScalarTag) (v : Json F) :
    unwrap fl (tagged tag.name v) =
      (unwrap fl v).map (.tuple (.scalar (.str tag.name))) := by
  have hlist : isListTag (F := F) (.scalar (.str tag.name)) = false := by
    simp [isListTag, tag.not_list, tag.not_set]
  have hmap : isMapTag (F := F) (.scalar (.str tag.name)) = false := by
    simp [isMapTag, tag.not_map]
  change unwrapValue fl (.scalar (.str tag.name)) [("@value", v)] = _
  unfold unwrapValue
  rw [if_pos rfl, hlist, hmap]
  rfl

theorem unwrap_untagged (fields : Fields F) :
    unwrap fl (.dict fields.entries) = some (Json.dict fields.entries).py := by
  simp [unwrap, fields.untagged]

theorem unwrap_of_isScalar {k : GValue F} (h : k.IsScalar) :
    unwrap fl (graphson k) = some k.py := by
  cases k with
  | plain s => rfl
  | typed tag s => rw [graphson, unwrap_scalar_tag]; rfl
  | element tag fields => exact h.elim
  | list xs => exact h.elim
  | set xs => exact h.elim
  | map es => exact h.elim

theorem hashable_of_isScalar {k : GValue F} (h : k.IsScalar) : k.py.hashable = true := by
  cases k with
  | plain s => rfl
  | typed tag s => rfl
  | element tag fields => exact h.elim
  | list xs => exact h.elim
  | set xs => exact h.elim
  | map es => exact h.elim

theorem hashable_pyEntries {es : List (GValue F × GValue F)} (h : GValue.KeyedEntries es) :
    (GValue.pyEntries es).all fun e ↦ e.1.hashable := by
  induction es with
  | nil => rfl
  | cons e es ih =>
      simp only [GValue.pyEntries, List.all_cons, hashable_of_isScalar h.1, Bool.true_and]
      exact ih h.2.2

mutual

theorem unwrap_graphson_eq : ∀ v : GValue F, v.Keyed → v.Distinct fl →
    unwrap fl (graphson v) = some v.py
  | .plain _, _, _ => rfl
  | .typed tag s, _, _ => by rw [graphson, unwrap_scalar_tag]; rfl
  | .element tag fields, _, _ => by
      rw [graphson, unwrap_scalar_tag, unwrap_untagged]; rfl
  | .list xs, hkeyed, hdistinct => by
      rw [graphson, unwrap_list_tag, unwrapAll_graphsonAll xs hkeyed hdistinct]; rfl
  | .set xs, hkeyed, hdistinct => by
      rw [graphson, unwrap_set_tag, unwrapAll_graphsonAll xs hkeyed hdistinct]; rfl
  | .map es, hkeyed, hdistinct => by
      rw [graphson, unwrap_map_tag, unwrapPairs_graphsonEntries es hkeyed hdistinct.1]
      exact dictOf_of_pairwise (hashable_pyEntries hkeyed) hdistinct.2

theorem unwrapAll_graphsonAll : ∀ xs : List (GValue F), GValue.KeyedAll xs →
    GValue.DistinctAll fl xs → unwrapAll fl (graphsonAll xs) = some (GValue.pyAll xs)
  | [], _, _ => rfl
  | x :: xs, hkeyed, hdistinct => by
      rw [graphsonAll, unwrapAll, unwrap_graphson_eq x hkeyed.1 hdistinct.1,
        unwrapAll_graphsonAll xs hkeyed.2 hdistinct.2]
      rfl

theorem unwrapPairs_graphsonEntries : ∀ es : List (GValue F × GValue F),
    GValue.KeyedEntries es → GValue.DistinctEntries fl es →
      unwrapPairs fl (graphsonEntries es) = some (GValue.pyEntries es)
  | [], _, _ => rfl
  | (k, x) :: es, hkeyed, hdistinct => by
      rw [graphsonEntries, unwrapPairs, unwrap_of_isScalar hkeyed.1,
        unwrap_graphson_eq x hkeyed.2.1 hdistinct.1,
        unwrapPairs_graphsonEntries es hkeyed.2.2 hdistinct.2]
      rfl

end

theorem isScalar_of_unwrap {k : GValue F} {p : Py F} (h : unwrap fl (graphson k) = some p)
    (hhash : p.hashable = true) : k.IsScalar := by
  cases k with
  | plain s => trivial
  | typed tag s => trivial
  | element tag fields =>
      rw [graphson, unwrap_scalar_tag, unwrap_untagged] at h
      obtain rfl := Option.some.inj h
      simp [Py.hashable, Json.py] at hhash
  | list xs =>
      rw [graphson, unwrap_list_tag] at h
      obtain ⟨ys, -, rfl⟩ := Option.map_eq_some_iff.mp h
      simp [Py.hashable] at hhash
  | set xs =>
      rw [graphson, unwrap_set_tag] at h
      obtain ⟨ys, -, rfl⟩ := Option.map_eq_some_iff.mp h
      simp [Py.hashable] at hhash
  | map es =>
      rw [graphson, unwrap_map_tag] at h
      obtain ⟨ps, -, hp⟩ := Option.bind_eq_some_iff.mp h
      unfold dictOf at hp
      split at hp
      · obtain rfl := Option.some.inj hp
        simp [Py.hashable] at hhash
      · cases hp

theorem isSome_bind_dictOf {o : Option (List (Py F × Py F))} :
    (o.bind (dictOf fl)).isSome ↔ ∃ ps, o = some ps ∧ ps.all fun e ↦ e.1.hashable := by
  cases o with
  | none => simp
  | some ps => simp [isSome_dictOf]

mutual

theorem isSome_unwrap_graphson : ∀ v : GValue F, (unwrap fl (graphson v)).isSome ↔ v.Keyed
  | .plain _ => iff_of_true rfl trivial
  | .typed tag s => by
      rw [graphson, unwrap_scalar_tag]
      exact iff_of_true rfl trivial
  | .element tag fields => by
      rw [graphson, unwrap_scalar_tag, unwrap_untagged]
      exact iff_of_true rfl trivial
  | .list xs => by
      rw [graphson, unwrap_list_tag, Option.isSome_map]
      exact isSome_unwrapAll_graphsonAll xs
  | .set xs => by
      rw [graphson, unwrap_set_tag, Option.isSome_map]
      exact isSome_unwrapAll_graphsonAll xs
  | .map es => by
      rw [graphson, unwrap_map_tag, isSome_bind_dictOf]
      exact exists_unwrapPairs_graphsonEntries es

theorem isSome_unwrapAll_graphsonAll : ∀ xs : List (GValue F),
    (unwrapAll fl (graphsonAll xs)).isSome ↔ GValue.KeyedAll xs
  | [] => iff_of_true rfl trivial
  | x :: xs => by
      have hx := isSome_unwrap_graphson x
      have hxs := isSome_unwrapAll_graphsonAll xs
      rw [graphsonAll, unwrapAll, GValue.KeyedAll, ← hx, ← hxs]
      cases unwrap fl (graphson x) with
      | none => simp
      | some y => cases unwrapAll fl (graphsonAll xs) <;> simp

theorem exists_unwrapPairs_graphsonEntries : ∀ es : List (GValue F × GValue F),
    (∃ ps, unwrapPairs fl (graphsonEntries es) = some ps ∧ ps.all fun e ↦ e.1.hashable) ↔
      GValue.KeyedEntries es
  | [] => iff_of_true ⟨[], rfl, rfl⟩ trivial
  | (k, x) :: es => by
      have hx := isSome_unwrap_graphson x
      have hes := exists_unwrapPairs_graphsonEntries es
      rw [graphsonEntries, unwrapPairs, GValue.KeyedEntries, ← hx, ← hes]
      constructor
      · rintro ⟨ps, hps, hhash⟩
        obtain ⟨p, hp, hps⟩ := Option.bind_eq_some_iff.mp hps
        obtain ⟨y, hy, hps⟩ := Option.bind_eq_some_iff.mp hps
        obtain ⟨rest, hrest, hps⟩ := Option.bind_eq_some_iff.mp hps
        obtain rfl := Option.some.inj hps
        rw [List.all_cons, Bool.and_eq_true] at hhash
        exact ⟨isScalar_of_unwrap hp hhash.1, by rw [hy]; rfl, rest, hrest, hhash.2⟩
      · rintro ⟨hk, hy, rest, hrest, hhash⟩
        obtain ⟨y, hy⟩ := Option.isSome_iff_exists.mp hy
        refine ⟨(k.py, y) :: rest, by rw [unwrap_of_isScalar hk, hy, hrest]; rfl, ?_⟩
        rw [List.all_cons, hashable_of_isScalar hk, hhash]
        rfl

end

/-! ## What the round trip loses -/

mutual

theorem py_inj : ∀ a b : Json F, a.py = b.py → a = b
  | .scalar _, .scalar _, h => by rw [Py.scalar.inj h]
  | .list xs, .list ys, h => by rw [pyAll_inj xs ys (Py.list.inj h)]
  | .dict es, .dict es', h => by rw [pyEntries_inj es es' (Py.dict.inj h)]
  | .scalar _, .list _, h => by cases h
  | .scalar _, .dict _, h => by cases h
  | .list _, .scalar _, h => by cases h
  | .list _, .dict _, h => by cases h
  | .dict _, .scalar _, h => by cases h
  | .dict _, .list _, h => by cases h

theorem pyAll_inj : ∀ xs ys : List (Json F), pyAll xs = pyAll ys → xs = ys
  | [], [], _ => rfl
  | x :: xs, y :: ys, h => by
      obtain ⟨hx, hxs⟩ := List.cons.inj h
      rw [py_inj x y hx, pyAll_inj xs ys hxs]
  | [], _ :: _, h => by cases h
  | _ :: _, [], h => by cases h

theorem pyEntries_inj : ∀ es es' : List (String × Json F), pyEntries es = pyEntries es' → es = es'
  | [], [], _ => rfl
  | (k, x) :: es, (k', x') :: es', h => by
      obtain ⟨he, hes⟩ := List.cons.inj h
      obtain ⟨hk, hx⟩ := Prod.mk.inj he
      rw [Scalar.str.inj (Py.scalar.inj hk), py_inj x x' hx, pyEntries_inj es es' hes]
  | [], _ :: _, h => by cases h
  | _ :: _, [], h => by cases h

end

theorem ScalarTag.ext_name {t t' : ScalarTag} (h : t.name = t'.name) : t = t' := by
  cases t
  cases t'
  cases h
  rfl

theorem Fields.ext_entries {f f' : Fields F} (h : f.entries = f'.entries) : f = f' := by
  cases f
  cases f'
  cases h
  rfl

mutual

theorem py_ordered : ∀ v : GValue F, v.ordered.py = v.py
  | .plain _ => rfl
  | .typed _ _ => rfl
  | .element _ _ => rfl
  | .list xs => congrArg Py.list (pyAll_orderedAll xs)
  | .set xs => congrArg Py.list (pyAll_orderedAll xs)
  | .map es => congrArg Py.dict (pyEntries_orderedEntries es)

theorem pyAll_orderedAll : ∀ xs : List (GValue F),
    GValue.pyAll (GValue.orderedAll xs) = GValue.pyAll xs
  | [] => rfl
  | x :: xs => congrArg₂ List.cons (py_ordered x) (pyAll_orderedAll xs)

theorem pyEntries_orderedEntries : ∀ es : List (GValue F × GValue F),
    GValue.pyEntries (GValue.orderedEntries es) = GValue.pyEntries es
  | [] => rfl
  | (k, x) :: es =>
      congrArg₂ List.cons (congrArg₂ Prod.mk (py_ordered k) (py_ordered x))
        (pyEntries_orderedEntries es)

end

mutual

theorem ordered_of_py_eq : ∀ v w : GValue F, v.py = w.py → v.ordered = w.ordered
  | .plain s, w, h => by
      cases w with
      | plain s' => rw [Py.scalar.inj h]
      | _ => cases h
  | .typed tag s, w, h => by
      cases w with
      | typed tag' s' =>
          obtain ⟨htag, hs⟩ := Py.tuple.inj h
          rw [ScalarTag.ext_name (Scalar.str.inj (Py.scalar.inj htag)), Py.scalar.inj hs]
      | element tag' fields' => cases (Py.tuple.inj h).2
      | _ => cases h
  | .element tag fields, w, h => by
      cases w with
      | element tag' fields' =>
          obtain ⟨htag, hfields⟩ := Py.tuple.inj h
          rw [ScalarTag.ext_name (Scalar.str.inj (Py.scalar.inj htag)),
            Fields.ext_entries (Json.dict.inj (py_inj _ _ hfields))]
      | typed tag' s' => cases (Py.tuple.inj h).2
      | _ => cases h
  | .list xs, w, h => by
      cases w with
      | list ys => exact congrArg GValue.list (orderedAll_of_py_eq xs ys (Py.list.inj h))
      | set ys => exact congrArg GValue.list (orderedAll_of_py_eq xs ys (Py.list.inj h))
      | _ => cases h
  | .set xs, w, h => by
      cases w with
      | list ys => exact congrArg GValue.list (orderedAll_of_py_eq xs ys (Py.list.inj h))
      | set ys => exact congrArg GValue.list (orderedAll_of_py_eq xs ys (Py.list.inj h))
      | _ => cases h
  | .map es, w, h => by
      cases w with
      | map es' => exact congrArg GValue.map (orderedEntries_of_py_eq es es' (Py.dict.inj h))
      | _ => cases h

theorem orderedAll_of_py_eq : ∀ xs ys : List (GValue F),
    GValue.pyAll xs = GValue.pyAll ys → GValue.orderedAll xs = GValue.orderedAll ys
  | [], [], _ => rfl
  | x :: xs, y :: ys, h => by
      obtain ⟨hx, hxs⟩ := List.cons.inj h
      exact congrArg₂ List.cons (ordered_of_py_eq x y hx) (orderedAll_of_py_eq xs ys hxs)
  | [], _ :: _, h => by cases h
  | _ :: _, [], h => by cases h

theorem orderedEntries_of_py_eq : ∀ es es' : List (GValue F × GValue F),
    GValue.pyEntries es = GValue.pyEntries es' →
      GValue.orderedEntries es = GValue.orderedEntries es'
  | [], [], _ => rfl
  | (k, x) :: es, (k', x') :: es', h => by
      obtain ⟨he, hes⟩ := List.cons.inj h
      obtain ⟨hk, hx⟩ := Prod.mk.inj he
      exact congrArg₂ List.cons
        (congrArg₂ Prod.mk (ordered_of_py_eq k k' hk) (ordered_of_py_eq x x' hx))
        (orderedEntries_of_py_eq es es' hes)
  | [], _ :: _, h => by cases h
  | _ :: _, [], h => by cases h

end

theorem py_eq_iff_ordered (v w : GValue F) : v.py = w.py ↔ v.ordered = w.ordered := by
  refine ⟨ordered_of_py_eq v w, fun h ↦ ?_⟩
  rw [← py_ordered v, h, py_ordered w]

end RoundTrip

/-- `unwrap` and GraphSON 3: a value can be unwrapped exactly when no map in it has a
container or an element for a key; where the keys of each map differ, what comes
out is the value itself, and two values become the same only if they differ in
nothing but sets taken for lists. -/
theorem unwrap_graphson (fl : Floats F) (v w : GValue F) :
    ((unwrap fl (graphson v)).isSome ↔ v.Keyed) ∧
      (v.Distinct fl → v.Keyed → unwrap fl (graphson v) = some v.py) ∧
      (v.Distinct fl → w.Distinct fl → w.Keyed →
        (unwrap fl (graphson v) = unwrap fl (graphson w) ↔ v.Keyed ∧ v.ordered = w.ordered)) := by
  have hsome : (unwrap fl (graphson v)).isSome ↔ v.Keyed := isSome_unwrap_graphson v
  refine ⟨hsome, fun hv hkeyed ↦ unwrap_graphson_eq v hkeyed hv, fun hv hw hwkeyed ↦ ?_⟩
  rw [unwrap_graphson_eq w hwkeyed hw]
  constructor
  · intro h
    have hkeyed : v.Keyed := hsome.mp (by rw [h]; rfl)
    rw [unwrap_graphson_eq v hkeyed hv] at h
    exact ⟨hkeyed, (py_eq_iff_ordered v w).mp (Option.some.inj h)⟩
  · rintro ⟨hkeyed, h⟩
    rw [unwrap_graphson_eq v hkeyed hv, (py_eq_iff_ordered v w).mpr h]

def bigDecimal : ScalarTag := ⟨"gx:BigDecimal", by decide, by decide, by decide⟩

/-- Floats that are rational numbers, each spelled exactly. -/
def rationals : Floats ℚ := ⟨fun x y ↦ x = y, some, some⟩

def balances (wrap : List (GValue ℚ) → GValue ℚ) : GValue ℚ :=
  .map [(.plain (.str "name"), .plain (.str "a")),
    (.plain (.str "balance"), wrap [.typed bigDecimal (.str "1.5")])]

/-- A set of balances and a list of them come out the same. -/
theorem unwrap_graphson_balances :
    unwrap rationals (graphson (balances .set)) =
      unwrap rationals (graphson (balances .list)) := by
  have hkeys : (GValue.pyEntries [(.plain (.str "name"), .plain (.str "a")),
      (.plain (.str "balance"), .list [.typed bigDecimal (.str "1.5")])]).Pairwise
        fun e e' ↦ e.1.same rationals e'.1 = false := by
    simp [GValue.pyEntries, GValue.py, Py.same, Scalar.same]
  have hlist : (balances .list).Distinct rationals :=
    ⟨⟨trivial, ⟨trivial, trivial⟩, trivial⟩, hkeys⟩
  have hset : (balances .set).Distinct rationals := ⟨⟨trivial, ⟨trivial, trivial⟩, trivial⟩, hkeys⟩
  have hkeyed : ∀ wrap ∈ [GValue.list, GValue.set], (balances wrap).Keyed := by
    simp [balances, GValue.Keyed, GValue.KeyedEntries, GValue.KeyedAll, GValue.IsScalar]
  exact ((unwrap_graphson rationals _ _).2.2 hset hlist (hkeyed _ (by simp))).mpr
    ⟨hkeyed _ (by simp), rfl⟩

end HugeGraphValidation.Bench

import HugeGraphValidation.Faults.Battery
import HugeGraphValidation.Lib.Scan
import HugeGraphValidation.Suite.Derived
import HugeGraphValidation.Suite.Walk

/-!
# The execution plans

Section `P` asks for `explain()` of every shape and records the line of the final
traversal.  The steps of a plan print with the identity hash of their object, which
is another one in every server, so `final_plan` leaves the hashes out.  It takes four
hexadecimal digits or more for a hash: a shorter one stays in the plan.
-/

namespace HugeGraphValidation.Suite

open Lib Faults

/-- `[0-9a-f]` -/
def isHex (c : Char) : Bool := c.isDigit || ('a' ≤ c && c ≤ 'f')

/-- `@[0-9a-f]{4,}` -/
def identityHash (c : Char) (behind : List Char) : Option (List Char × ℕ) :=
  let digits := behind.takeWhile isHex
  if c = '@' ∧ 4 ≤ digits.length then some (digits, digits.length) else none

section Lines

variable {α β : Type*} (view : α → Option Char)

def isBlank (x : α) : Bool := (view x).any isSpace

/-- `"Final Traversal"` -/
def heading : List Char :=
  ['F', 'i', 'n', 'a', 'l', ' ', 'T', 'r', 'a', 'v', 'e', 'r', 's', 'a', 'l']

/-- `l.lstrip().startswith("Final Traversal")`, where an item of the line shows a
character or none. -/
def isFinal (line : List α) : Bool :=
  (heading.map some).isPrefixOf ((line.dropWhile (isBlank view)).map view)

/-- `fin[-1] if fin else lines[-1]` -/
def finalLine (txt : List α) : List α :=
  let lines := txt.splitOnP fun x ↦ view x = some '\n'
  let fin := lines.filter (isFinal view)
  fin.getLast?.getD (lines.getLast?.getD [])

/-- `re.sub(r"^\s*Final Traversal\s*", "", line)` -/
def withoutHeading (line : List α) : List α :=
  if isFinal view line then
    ((line.dropWhile (isBlank view)).drop heading.length).dropWhile (isBlank view)
  else line

/-- `line.strip()` -/
def stripped (line : List α) : List α :=
  (line.dropWhile (isBlank view)).rdropWhile (isBlank view)

def planLine (txt : List α) : List α := stripped view (withoutHeading view (finalLine view txt))

end Lines

/-- The plan in the text of `explain()`. -/
def planOf (txt : String) : String :=
  String.ofList (erased identityHash (planLine some txt.toList))

/-- `data[0]`: the text, or another value with its `json.dumps`. -/
inductive Explained where
  | text (s : String)
  | other (dumped : String)

def Explained.txt : Explained → String
  | text s => s
  | other dumped => dumped

/-- `final_plan(hg, g)`, given the answer to `g.explain().toString()`. -/
def finalPlan (d : Reply (List Explained)) : Option (List Id) × Option String :=
  if d.bad then (none, some d.err)
  else (some [.str (planOf ((d.payload.head?.map Explained.txt).getD ""))], none)

/-- `run_P`, for the shapes with their traversals. -/
def runP (shapes : List (String × String)) (gremlin : String → Reply (List Explained)) :
    List Call :=
  .sec "P" "execution plan (explain(): final traversal) for the review shapes" ::
    shapes.map fun shape ↦
      let plan := finalPlan (gremlin (shape.2 ++ ".explain().toString()"))
      .case ("PLAN " ++ shape.1) plan.1 plan.2

/-! ## No hash is left -/

theorem identityHash_eq_none {c : Char} {behind : List Char} :
    identityHash c behind = none ↔ c = '@' → (behind.takeWhile isHex).length < 4 := by
  simp [identityHash]

theorem identityHash_of_ne {c : Char} (hc : c ≠ '@') (behind : List Char) :
    identityHash c behind = none :=
  identityHash_eq_none.mpr fun h ↦ absurd h hc

theorem isHex_ne_at {c : Char} (hc : isHex c = true) : c ≠ '@' := by
  rintro rfl
  exact absurd hc (by decide)

theorem eq_of_identityHash {c : Char} {behind digits : List Char} {n : ℕ}
    (h : identityHash c behind = some (digits, n)) :
    c = '@' ∧ 4 ≤ n ∧ behind.drop n = behind.dropWhile isHex := by
  simp only [identityHash, Option.ite_none_right_eq_some, Option.some.injEq, Prod.mk.injEq] at h
  obtain ⟨⟨hc, hlength⟩, -, rfl⟩ := h
  refine ⟨hc, hlength, ?_⟩
  calc behind.drop (behind.takeWhile isHex).length
      = (behind.takeWhile isHex ++ behind.dropWhile isHex).drop
          (behind.takeWhile isHex).length := by rw [List.takeWhile_append_dropWhile]
    _ = behind.dropWhile isHex := List.drop_left

/-- The hexadecimal digits at the start of a text stay where they are. -/
theorem takeWhile_erased (xs : List Char) :
    (erased identityHash xs).takeWhile isHex = xs.takeWhile isHex := by
  induction xs using scan_induction identityHash with
  | nil => rfl
  | keep x xs hnone ih =>
      rw [erased_cons_of_none hnone, List.takeWhile_cons, List.takeWhile_cons, ih]
  | found x xs digits n hmatch ih =>
      obtain ⟨rfl, -, hdrop⟩ := eq_of_identityHash hmatch
      rw [erased_cons_of_some hmatch, ih, hdrop, List.takeWhile_cons_of_neg (by decide),
        List.takeWhile_eq_nil_iff]
      exact fun hpos ↦ List.dropWhile_get_zero_not isHex xs hpos

theorem quiet_erased (xs : List Char) : Quiet identityHash (erased identityHash xs) [] := by
  induction xs using scan_induction identityHash with
  | nil =>
      intro before x behind h
      simp at h
  | keep x xs hnone ih =>
      rw [erased_cons_of_none hnone]
      intro before y behind h
      cases before with
      | nil =>
          obtain ⟨rfl, rfl⟩ := List.cons.inj h
          rw [identityHash_eq_none] at hnone ⊢
          rwa [List.append_nil, takeWhile_erased]
      | cons b before => exact ih before y behind (List.cons.inj h).2
  | found x xs digits n hmatch ih =>
      rw [erased_cons_of_some hmatch]
      exact ih

/-- No hash of four digits or more is left in a plan, and to leave the hashes out a
second time changes nothing. -/
theorem plan_without_hashes (txt : String) :
    findall identityHash (planOf txt).toList = [] ∧
      erased identityHash (planOf txt).toList = (planOf txt).toList := by
  rw [planOf, String.toList_ofList]
  exact ⟨findall_of_quiet (quiet_erased _), erased_of_quiet (quiet_erased _)⟩

/-! ## Texts up to their hashes -/

/-- A piece of the text of `explain()`: a character, or the hash of an object. -/
inductive Token where
  | char (c : Char) (hc : c ≠ '@')
  | hash (digits : List Char) (hdigits : ∀ c ∈ digits, isHex c = true)
  deriving DecidableEq

def Token.shape : Token → Option Char
  | char c _ => some c
  | hash _ _ => none

def Token.chars : Token → List Char
  | char c _ => [c]
  | hash digits _ => '@' :: digits

/-- What is left of a piece. -/
def Token.kept : Token → List Char
  | char c _ => [c]
  | hash digits _ => if 4 ≤ digits.length then [] else '@' :: digits

def spelled (ts : List Token) : List Char := ts.flatMap Token.chars

/-- A hash ends at a character that is no digit of it. -/
def Token.EndsBefore : Token → Token → Prop
  | char _ _, _ => True
  | hash _ _, char c _ => isHex c = false
  | hash _ _, hash _ _ => False

def Legible (ts : List Token) : Prop := ts.IsChain Token.EndsBefore

/-- The hashes are the same, or both are long enough to be left out. -/
def Token.Agree : Token → Token → Prop
  | hash digits _, hash digits' _ => digits = digits' ∨ 4 ≤ digits.length ∧ 4 ≤ digits'.length
  | t, t' => t = t'

theorem Legible.within {ts us : List Token} (h : Legible ts) (hus : us <:+: ts) : Legible us :=
  h.infix hus

theorem Legible.tail {t : Token} {ts : List Token} (h : Legible (t :: ts)) : Legible ts :=
  h.within (List.suffix_cons t ts).isInfix

theorem takeWhile_spelled {digits : List Char} {hdigits : ∀ c ∈ digits, isHex c = true}
    {ts : List Token} (h : Legible (.hash digits hdigits :: ts)) (f : Token → List Char)
    (hf : ∀ c hc, f (.char c hc) = [c]) :
    (digits ++ ts.flatMap f).takeWhile isHex = digits := by
  rw [List.takeWhile_append_of_pos hdigits]
  cases ts with
  | nil => simp
  | cons t ts =>
      have hends := (List.isChain_cons_cons.mp h).1
      cases t with
      | hash _ _ => exact hends.elim
      | char c hc =>
          have hneg : ¬isHex c = true := by
            rw [show isHex c = false from hends]
            decide
          rw [List.flatMap_cons, hf, List.singleton_append, List.takeWhile_cons_of_neg hneg,
            List.append_nil]

theorem erased_spelled {ts : List Token} (h : Legible ts) :
    erased identityHash (spelled ts) = ts.flatMap Token.kept := by
  induction ts with
  | nil => rfl
  | cons t ts ih =>
      rw [spelled, List.flatMap_cons, List.flatMap_cons, ← ih h.tail]
      cases t with
      | char c hc => exact erased_cons_of_none (identityHash_of_ne hc _)
      | hash digits hhex =>
          have hdigits := takeWhile_spelled h Token.chars fun _ _ ↦ rfl
          rw [Token.chars, Token.kept, List.cons_append]
          split_ifs with hlong
          · have hmatch : identityHash '@' (digits ++ ts.flatMap Token.chars) =
                some (digits, digits.length) := by
              simp [identityHash, hdigits, hlong]
            rw [erased_cons_of_some hmatch, List.drop_left, spelled, List.nil_append]
          · have hnone : identityHash '@' (digits ++ ts.flatMap Token.chars) = none := by
              rw [identityHash_eq_none, hdigits]
              exact fun _ ↦ not_le.mp hlong
            have hquiet : Quiet identityHash digits (ts.flatMap Token.chars) :=
              quiet_of_forall fun c hc ↦ identityHash_of_ne (isHex_ne_at (hhex c hc))
            rw [erased_cons_of_none hnone, erased_append_of_quiet hquiet, List.cons_append, spelled]

/-- Behind a hash there is no other `@`. -/
theorem kept_ne_at {digits : List Char} {hdigits : ∀ c ∈ digits, isHex c = true}
    {ts : List Token} (h : Legible (.hash digits hdigits :: ts)) (cs : List Char) :
    ts.flatMap Token.kept ≠ '@' :: cs := by
  cases ts with
  | nil => simp
  | cons t ts =>
      have hends := (List.isChain_cons_cons.mp h).1
      cases t with
      | hash _ _ => exact hends.elim
      | char c hc =>
          intro heq
          exact hc (List.cons.inj heq).1

theorem kept_hash_iff {digits digits' : List Char} {hdigits : ∀ c ∈ digits, isHex c = true}
    {hdigits' : ∀ c ∈ digits', isHex c = true} {ts us : List Token}
    (hts : Legible (.hash digits hdigits :: ts)) (hus : Legible (.hash digits' hdigits' :: us)) :
    (Token.hash digits hdigits).kept ++ ts.flatMap Token.kept =
        (Token.hash digits' hdigits').kept ++ us.flatMap Token.kept ↔
      (Token.hash digits hdigits).Agree (.hash digits' hdigits') ∧
        ts.flatMap Token.kept = us.flatMap Token.kept := by
  simp only [Token.kept, Token.Agree]
  split_ifs with hlong hlong' hlong'
  · simp [hlong, hlong']
  · constructor
    · intro heq
      exact absurd heq (kept_ne_at hts _)
    · rintro ⟨rfl | ⟨-, hlong''⟩, -⟩
      · exact absurd hlong hlong'
      · exact absurd hlong'' hlong'
  · constructor
    · intro heq
      exact absurd heq.symm (kept_ne_at hus _)
    · rintro ⟨rfl | ⟨hlong'', -⟩, -⟩
      · exact absurd hlong' hlong
      · exact absurd hlong'' hlong
  · constructor
    · intro heq
      have hbehind : digits ++ ts.flatMap Token.kept = digits' ++ us.flatMap Token.kept :=
        (List.cons.inj heq).2
      have hsame : digits = digits' := by
        rw [← takeWhile_spelled hts Token.kept fun _ _ ↦ rfl, hbehind,
          takeWhile_spelled hus Token.kept fun _ _ ↦ rfl]
      subst hsame
      exact ⟨Or.inl rfl, List.append_cancel_left hbehind⟩
    · rintro ⟨rfl | ⟨hlong'', -⟩, heq⟩
      · rw [heq]
      · exact absurd hlong'' hlong

/-- Two texts of one shape keep the same characters exactly when their hashes agree. -/
theorem kept_inj_iff {ts us : List Token} (hts : Legible ts) (hus : Legible us)
    (hshape : ts.map Token.shape = us.map Token.shape) :
    ts.flatMap Token.kept = us.flatMap Token.kept ↔ List.Forall₂ Token.Agree ts us := by
  induction ts generalizing us with
  | nil =>
      obtain rfl : us = [] := by simpa using hshape.symm
      simp
  | cons t ts ih =>
      cases us with
      | nil => simp at hshape
      | cons u us =>
          obtain ⟨hhead, hrest⟩ := List.cons.inj hshape
          rw [List.flatMap_cons, List.flatMap_cons, List.forall₂_cons,
            ← ih hts.tail hus.tail hrest]
          cases t with
          | char c _ =>
              cases u with
              | hash _ _ => cases hhead
              | char d _ =>
                  obtain rfl : c = d := Option.some.inj hhead
                  simp [Token.kept, Token.Agree]
          | hash digits _ =>
              cases u with
              | char _ _ => cases hhead
              | hash digits' _ => exact kept_hash_iff hts hus

/-! ## The line of the plan -/

section View

variable {α β : Type*} {view : α → Option Char} {view' : β → Option Char} {g : α → List β}

/-- An item that shows a character is spelled by one that shows it, and an item that
shows none by items that are no blanks, the first of them none of the heading. -/
def Spells (view : α → Option Char) (view' : β → Option Char) (g : α → List β) : Prop :=
  ∀ x, (∃ y, g x = [y] ∧ view' y = view x) ∨
    (view x = none ∧ ∃ y ys, g x = y :: ys ∧ (∀ c ∈ heading, view' y ≠ some c) ∧
      ∀ z ∈ y :: ys, isBlank view' z = false)

theorem Spells.keeps (h : Spells view view' g) {s : Option Char → Bool}
    (hs : ∀ o, s o = true → o.any isSpace = true) :
    Keeps (fun x ↦ s (view x)) (fun y ↦ s (view' y)) g := by
  intro x
  rcases h x with ⟨y, hy, hview⟩ | ⟨hview, y, ys, hy, -, hblank⟩
  · simp only [hy, ← hview]
    split_ifs with hx
    · exact ⟨y, rfl, hx⟩
    · exact ⟨List.cons_ne_nil y [], by simpa using hx⟩
  · have hx : ¬s (view x) = true := by
      intro hx
      simpa [hview] using hs _ hx
    rw [if_neg hx, hy]
    refine ⟨List.cons_ne_nil y ys, fun z hz ↦ ?_⟩
    rw [Bool.eq_false_iff]
    intro hz'
    have hspace := hs _ hz'
    rw [← isBlank, hblank z hz] at hspace
    cases hspace

theorem Spells.keeps_blank (h : Spells view view' g) :
    Keeps (isBlank view) (isBlank view') g :=
  h.keeps (s := fun o ↦ o.any isSpace) fun _ ho ↦ ho

theorem Spells.keeps_newline (h : Spells view view' g) :
    Keeps (fun x ↦ decide (view x = some '\n')) (fun y ↦ decide (view' y = some '\n')) g := by
  refine h.keeps (s := fun o ↦ decide (o = some '\n')) fun o ho ↦ ?_
  rw [decide_eq_true_iff.mp ho]
  decide

theorem Spells.isPrefixOf_eq (h : Spells view view' g) {cs : List Char} (hcs : cs ⊆ heading)
    (xs : List α) :
    (cs.map some).isPrefixOf ((xs.flatMap g).map view') =
      (cs.map some).isPrefixOf (xs.map view) := by
  induction cs generalizing xs with
  | nil => rfl
  | cons c cs ih =>
      rw [List.cons_subset] at hcs
      cases xs with
      | nil => rfl
      | cons x xs =>
          rw [List.flatMap_cons, List.map_append]
          rcases h x with ⟨y, hy, hview⟩ | ⟨hview, y, ys, hy, hne, -⟩
          · rw [hy, List.map_singleton, List.singleton_append, List.map_cons, List.map_cons,
              List.isPrefixOf_cons_cons, List.isPrefixOf_cons_cons, hview, ih hcs.2]
          · have hc : (some c == view' y) = false := by
              simpa using fun heq ↦ hne c hcs.1 heq.symm
            rw [hy, List.map_cons, List.map_cons, List.map_cons, hview, List.cons_append,
              List.isPrefixOf_cons_cons, List.isPrefixOf_cons_cons, hc]
            rfl

/-- Behind a start of the heading the rest spells the rest. -/
theorem Spells.flatMap_drop (h : Spells view view' g) (cs : List Char) (xs : List α)
    (hchars : (cs.map some).isPrefixOf (xs.map view) = true) :
    (xs.drop cs.length).flatMap g = (xs.flatMap g).drop cs.length := by
  induction cs generalizing xs with
  | nil => rfl
  | cons c cs ih =>
      cases xs with
      | nil => simp
      | cons x xs =>
          rw [List.map_cons, List.map_cons, List.isPrefixOf_cons_cons, Bool.and_eq_true,
            beq_iff_eq] at hchars
          obtain ⟨hc, hchars⟩ := hchars
          rcases h x with ⟨y, hy, -⟩ | ⟨hview, -⟩
          · rw [List.length_cons, List.drop_succ_cons, List.flatMap_cons, hy, ih xs hchars]
            rfl
          · rw [hview] at hc
            cases hc

theorem Spells.isFinal_flatMap (h : Spells view view' g) (line : List α) :
    isFinal view' (line.flatMap g) = isFinal view line := by
  rw [isFinal, isFinal, ← h.keeps_blank.flatMap_dropWhile, h.isPrefixOf_eq (List.Subset.refl _)]

theorem Spells.flatMap_finalLine (h : Spells view view' g) (txt : List α) :
    (finalLine view txt).flatMap g = finalLine view' (txt.flatMap g) := by
  have hfin : ∀ lines : List (List α), (lines.map (List.flatMap g)).filter (isFinal view') =
      (lines.filter (isFinal view)).map (List.flatMap g) := by
    intro lines
    rw [List.filter_map]
    congr 1
    exact List.filter_congr fun line _ ↦ h.isFinal_flatMap line
  simp only [finalLine]
  rw [← h.keeps_newline.map_splitOnP, hfin, List.getLast?_map, List.getLast?_map]
  cases ((txt.splitOnP fun x ↦ decide (view x = some '\n')).filter (isFinal view)).getLast? with
  | some line => rfl
  | none =>
      cases (txt.splitOnP fun x ↦ decide (view x = some '\n')).getLast? with
      | some line => rfl
      | none => rfl

theorem Spells.flatMap_withoutHeading (h : Spells view view' g) (line : List α) :
    (withoutHeading view line).flatMap g = withoutHeading view' (line.flatMap g) := by
  rw [withoutHeading, withoutHeading, h.isFinal_flatMap]
  split_ifs with hfinal
  · rw [h.keeps_blank.flatMap_dropWhile, h.flatMap_drop heading _ hfinal,
      h.keeps_blank.flatMap_dropWhile]
  · rfl

/-- The line of the plan is found in the same place of a text that is spelled out. -/
theorem Spells.flatMap_planLine (h : Spells view view' g) (txt : List α) :
    (planLine view txt).flatMap g = planLine view' (txt.flatMap g) := by
  rw [planLine, planLine, stripped, stripped, h.keeps_blank.flatMap_rdropWhile,
    h.keeps_blank.flatMap_dropWhile, h.flatMap_withoutHeading, h.flatMap_finalLine]

end View

theorem planLine_within {α : Type*} (view : α → Option Char) (txt : List α) :
    planLine view txt <:+: txt := by
  have hfinal : finalLine view txt <:+: txt := by
    simp only [finalLine]
    cases hfin : ((txt.splitOnP fun x ↦ decide (view x = some '\n')).filter
        (isFinal view)).getLast? with
    | some line => exact infix_of_mem_splitOnP (List.mem_filter.mp (List.mem_of_getLast? hfin)).1
    | none =>
        cases hlast : (txt.splitOnP fun x ↦ decide (view x = some '\n')).getLast? with
        | some line => exact infix_of_mem_splitOnP (List.mem_of_getLast? hlast)
        | none => exact List.nil_infix
  have hheading : withoutHeading view (finalLine view txt) <:+: finalLine view txt := by
    unfold withoutHeading
    split_ifs
    · exact ((List.dropWhile_suffix _).trans
        ((List.drop_suffix _ _).trans (List.dropWhile_suffix _))).isInfix
    · exact List.infix_refl _
  exact ((List.rdropWhile_prefix _ _).isInfix.trans (List.dropWhile_suffix _).isInfix).trans
    (hheading.trans hfinal)

theorem isHex_toNat {c : Char} (hc : isHex c = true) :
    48 ≤ c.toNat ∧ c.toNat ≤ 57 ∨ 97 ≤ c.toNat ∧ c.toNat ≤ 102 := by
  simp only [isHex, Char.isDigit, Bool.or_eq_true, Bool.and_eq_true, decide_eq_true_eq, Char.le_def,
    UInt32.le_iff_toNat_le] at hc
  exact hc

theorem isHex_not_space {c : Char} (hc : isHex c = true) : isSpace c = false := by
  have h := isHex_toNat hc
  simp only [isSpace, Bool.or_eq_false_iff, Bool.and_eq_false_imp, decide_eq_true_eq,
    decide_eq_false_iff_not]
  omega

theorem spells_chars : Spells Token.shape some Token.chars := by
  intro t
  cases t with
  | char c hc => exact Or.inl ⟨c, rfl, rfl⟩
  | hash digits hdigits =>
      refine Or.inr ⟨rfl, '@', digits, rfl, ?_, ?_⟩
      · simp [heading]
      · intro z hz
        rw [List.mem_cons] at hz
        rcases hz with rfl | hz
        · decide
        · exact isHex_not_space (hdigits z hz)

theorem spells_shape : Spells Token.shape id fun t ↦ [t.shape] :=
  fun t ↦ Or.inl ⟨t.shape, rfl, rfl⟩

/-- The plans of two texts of one shape are the same exactly when in the line of the
plan the hashes agree. -/
theorem planOf_eq_iff {ts us : List Token} (hts : Legible ts) (hus : Legible us)
    (hshape : ts.map Token.shape = us.map Token.shape) :
    planOf (String.ofList (spelled ts)) = planOf (String.ofList (spelled us)) ↔
      List.Forall₂ Token.Agree (planLine Token.shape ts) (planLine Token.shape us) := by
  have hplan : ∀ {ts : List Token}, Legible ts →
      planOf (String.ofList (spelled ts)) =
        String.ofList ((planLine Token.shape ts).flatMap Token.kept) := by
    intro ts hts
    rw [planOf, String.toList_ofList, spelled, ← spells_chars.flatMap_planLine]
    rw [← spelled, erased_spelled (hts.within (planLine_within _ ts))]
  have hline : (planLine Token.shape ts).map Token.shape =
      (planLine Token.shape us).map Token.shape := by
    have hmap : ∀ ts : List Token, (planLine Token.shape ts).map Token.shape =
        planLine id (ts.map Token.shape) := by
      intro ts
      rw [List.map_eq_flatMap, spells_shape.flatMap_planLine, ← List.map_eq_flatMap]
    rw [hmap, hmap, hshape]
  rw [hplan hts, hplan hus, String.ofList_inj,
    kept_inj_iff (hts.within (planLine_within _ ts)) (hus.within (planLine_within _ us)) hline]

/-! ## Section `P` of two servers -/

/-- The answer explains a traversal with the text that the pieces spell. -/
structure Explains (d : Reply (List Explained)) (ts : List Token) : Prop where
  answered : d.bad = false
  txt : (d.payload.head?.map Explained.txt).getD "" = String.ofList (spelled ts)
  legible : Legible ts

theorem runP_headings (shapes : List (String × String))
    (gremlinO gremlinT : String → Reply (List Explained)) :
    List.Forall₂ (fun o t ↦ o.heading = t.heading) (runP shapes gremlinO)
      (runP shapes gremlinT) := by
  refine .cons rfl ?_
  rw [List.forall₂_map_left_iff, List.forall₂_map_right_iff, List.forall₂_same]
  exact fun shape _ ↦ rfl

theorem classAgainst_plan (md5 : Md5) (keepO keepT : Bool) (name : String) {o t : String}
    (hinj : Set.InjOn md5.digits {o, t}) :
    (Call.case name (some [.str o]) none).classAgainst md5 keepO keepT
        (.case name (some [.str t]) none) =
      some (if o = t then .ok else .mismatch) := by
  have htext : ∀ s : String, H md5 [.str s] = md5.digits s := by
    intro s
    simp [H, text, joinSorted, Id.toStr]
  have hok := classifyResults_eq_ok_iff (o := caseResult md5 keepO [.str o])
    (t := caseResult md5 keepT [.str t])
  have hdup := classifyResults_eq_dup_iff (o := caseResult md5 keepO [.str o])
    (t := caseResult md5 keepT [.str t])
  simp only [caseResult, htext, List.length_singleton, List.toFinset_cons, List.toFinset_nil,
    insert_empty_eq, Finset.card_singleton, true_and, hinj.eq_iff (Set.mem_insert _ _)
      (Set.mem_insert_of_mem _ rfl)] at hok hdup
  refine congrArg some ?_
  simp only [caseBody, classifyBodies]
  split_ifs with hsame
  · exact hok.mpr hsame
  · rcases classifyResults_cases (caseResult md5 keepO [.str o]) (caseResult md5 keepT [.str t])
      with hcls | hcls | hcls
    · exact absurd (hok.mp hcls) hsame
    · exact absurd rfl (hdup.mp hcls).1
    · exact hcls

theorem finalPlan_of_explains {d : Reply (List Explained)} {ts : List Token}
    (h : Explains d ts) :
    finalPlan d = (some [.str (planOf (String.ofList (spelled ts)))], none) := by
  simp [finalPlan, h.answered, h.txt]

open Classical in
/-- Section `P` of two servers whose plans have one shape: a row is `OK` where the
hashes in the line of the plan agree, and a mismatch where one of fewer than four
digits does not. -/
theorem plan_rows (md5 : Md5) (expectO expectT : Option (List Record)) (keepO keepT : Bool)
    (shapes : List (String × String)) (gremlinO gremlinT : String → Reply (List Explained))
    (tokensO tokensT : String → List Token)
    (hO : ∀ s ∈ shapes, Explains (gremlinO (s.2 ++ ".explain().toString()")) (tokensO s.2))
    (hT : ∀ s ∈ shapes, Explains (gremlinT (s.2 ++ ".explain().toString()")) (tokensT s.2))
    (hshape : ∀ s ∈ shapes, (tokensO s.2).map Token.shape = (tokensT s.2).map Token.shape)
    (hinj : ∀ s ∈ shapes, Set.InjOn md5.digits
      {planOf (String.ofList (spelled (tokensO s.2))),
        planOf (String.ofList (spelled (tokensT s.2)))}) :
    (rows (Report.run md5 expectO keepO (runP shapes gremlinO)).cases
        (Report.run md5 expectT keepT (runP shapes gremlinT)).cases).map Row.cls =
      shapes.map fun s ↦
        if List.Forall₂ Token.Agree (planLine Token.shape (tokensO s.2))
            (planLine Token.shape (tokensT s.2)) then .ok
        else .mismatch := by
  rw [rows_cls_of_runs md5 expectO expectT keepO keepT (runP_headings shapes gremlinO gremlinT),
    runP, runP, List.zip_cons_cons, List.filterMap_cons, List.zip_map', List.filterMap_map]
  simp only [Call.classAgainst, Call.body]
  rw [← List.filterMap_eq_map]
  refine List.filterMap_congr fun s hs ↦ ?_
  have hcls := classAgainst_plan md5 keepO keepT ("PLAN " ++ s.1) (hinj s hs)
  rw [Function.comp_apply, finalPlan_of_explains (hO s hs), finalPlan_of_explains (hT s hs)]
  refine hcls.trans (congrArg some ?_)
  exact if_congr (planOf_eq_iff (hO s hs).legible (hT s hs).legible (hshape s hs)) rfl rfl

/-- The step `S` with its hash. -/
def sampleTokens (digits : List Char) (hdigits : digits.all isHex = true) : List Token :=
  [.char 'S' (by decide), .hash digits (List.all_eq_true.mp hdigits)]

def sampleExplain (digits : List Char) : Reply (List Explained) :=
  ⟨200, false, none, "", [.text (String.ofList ('S' :: '@' :: digits))]⟩

theorem explains_sample (digits : List Char) (hdigits : digits.all isHex = true) :
    Explains (sampleExplain digits) (sampleTokens digits hdigits) where
  answered := rfl
  txt := by simp [sampleExplain, Explained.txt, spelled, sampleTokens, Token.chars]
  legible := by simp [Legible, sampleTokens, Token.EndsBefore]

theorem agree_sample {digits digits' : List Char} (hdigits : digits.all isHex = true)
    (hdigits' : digits'.all isHex = true) (hlong : 4 ≤ digits.length)
    (hlong' : 4 ≤ digits'.length) :
    List.Forall₂ Token.Agree (planLine Token.shape (sampleTokens digits hdigits))
      (planLine Token.shape (sampleTokens digits' hdigits')) := by
  have hline : ∀ digits hdigits, planLine Token.shape (sampleTokens digits hdigits) =
      sampleTokens digits hdigits := by
    intro digits hdigits
    rfl
  rw [hline, hline]
  exact .cons rfl (.cons (Or.inr ⟨hlong, hlong'⟩) .nil)

/-- The hash of the oracle has four digits and that of the target eight. -/
theorem plan_rows_one_step :
    (rows
        (Report.run sampleMd5 none true
          (runP [("V", "g.V()")] fun _ ↦ sampleExplain ['1', '2', 'a', 'b'])).cases
        (Report.run sampleMd5 none true
          (runP [("V", "g.V()")] fun _ ↦
            sampleExplain ['d', 'e', 'a', 'd', 'b', 'e', 'e', 'f'])).cases).map Row.cls =
      [.ok] := by
  have hO : ['1', '2', 'a', 'b'].all isHex = true := by decide
  have hT : ['d', 'e', 'a', 'd', 'b', 'e', 'e', 'f'].all isHex = true := by decide
  have hagree := agree_sample hO hT (by decide) (by decide)
  have hplan := (planOf_eq_iff (explains_sample _ hO).legible (explains_sample _ hT).legible
    rfl).mpr hagree
  refine (plan_rows sampleMd5 none none true true [("V", "g.V()")] _ _
    (fun _ ↦ sampleTokens _ hO) (fun _ ↦ sampleTokens _ hT) (fun _ _ ↦ explains_sample _ hO)
    (fun _ _ ↦ explains_sample _ hT) (fun _ _ ↦ rfl) fun _ _ ↦ ?_).trans ?_
  · rw [hplan, Set.pair_eq_singleton]
    exact Set.injOn_singleton _ _
  · rw [List.map_singleton, if_pos hagree]

end HugeGraphValidation.Suite

import HugeGraphValidation.Lib.Lines

/-!
# Case records and their classification

A case of the suite keeps an error, or the number of ids, the number of
distinct ids, a digest and perhaps the ids.  `classify` compares the record of
the oracle with that of the target.
-/

namespace HugeGraphValidation.Suite

open Lib

inductive Id where
  | int (n : ℤ)
  | str (s : String)
  deriving DecidableEq

def Id.toStr : Id → String
  | .int n => toString n
  | .str s => s

/-- The first twelve digits of the hexadecimal md5 of a text. -/
structure Md5 where
  digits : String → String
  length_digits : ∀ text, (digits text).length = 12

/-- The digits of a few texts, for runs on fixed ids. -/
def sampleMd5 : Md5 where
  digits text :=
    if text = "1" then "c4ca4238a0b9"
    else if text = "a\na" then "702689f270c2"
    else if text = "a\nb" then "8cdeb44417f3"
    else if text = "a\nb\nc" then "c32b2057b9bd"
    else "d41d8cd98f00"
  length_digits text := by
    split_ifs <;> decide

/-- `"\n".join(sorted(map(str, ids)))` -/
def text (ids : List Id) : String := joinSorted (ids.map Id.toStr)

def H (md5 : Md5) (ids : List Id) : String := md5.digits (text ids)

structure Result where
  n : ℤ
  uniq : ℤ
  h : String
  ids : Option (List String)
  deriving DecidableEq

inductive Body where
  | err (message : Option String)
  | result (r : Result)
  deriving DecidableEq

structure Record where
  sec : String
  name : String
  body : Body
  deriving DecidableEq

def Record.key (r : Record) : String × String := (r.sec, r.name)

/-- The comparison classes, in the order of `CLASSES`. -/
inductive Cls where
  | ok | dup | mismatch | targetErr | oracleErr | bothErr | new | missing
  deriving DecidableEq

def classes : List Cls :=
  [.ok, .dup, .mismatch, .targetErr, .oracleErr, .bothErr, .new, .missing]

def Cls.text : Cls → String
  | .ok => "OK"
  | .dup => "DUP"
  | .mismatch => "MISMATCH"
  | .targetErr => "TARGET-ERR"
  | .oracleErr => "ORACLE-ERR"
  | .bothErr => "BOTH-ERR"
  | .new => "NEW"
  | .missing => "MISSING"

theorem mem_classes (c : Cls) : c ∈ classes := by
  cases c <;> decide

def classifyResults (o t : Result) : Cls × String :=
  if (o.n, o.uniq, o.h) = (t.n, t.uniq, t.h) then (.ok, "")
  else if t.n ≠ t.uniq ∧ o.n = o.uniq then
    (.dup, s!"n={t.n} uniq={t.uniq} oracle n={o.n}")
  else
    let note := s!"oracle n={o.n} h={o.h} target n={t.n} h={t.h}"
    match o.ids, t.ids with
    | some os, some ts =>
        let onlyOracle := os.toFinset \ ts.toFinset
        let onlyTarget := ts.toFinset \ os.toFinset
        (.mismatch, note ++ s!" only-oracle={onlyOracle.card} only-target={onlyTarget.card}")
    | _, _ => (.mismatch, note)

def classifyBodies : Body → Body → Cls × String
  | .err _, .err _ => (.bothErr, "")
  | .result o, .err _ => (.targetErr, s!"oracle n={o.n}")
  | .err _, .result t => (.oracleErr, s!"target n={t.n}")
  | .result o, .result t => classifyResults o t

/-- `classify(o, t)`; no oracle record when the case is absent there. -/
def classify : Option Record → Record → Cls × String
  | none, _ => (.new, "")
  | some o, t => classifyBodies o.body t.body

def caseResult (md5 : Md5) (keepIds : Bool) (ids : List Id) : Result where
  n := ids.length
  uniq := ids.toFinset.card
  h := H md5 ids
  ids :=
    if keepIds ∧ ids.length ≤ 20000 then some ((ids.map Id.toStr).insertionSort (· ≤ ·))
    else none

/-- What `Report.case` records of an id list, or of an error. -/
def caseBody (md5 : Md5) (keepIds : Bool) : Option (List Id) → Option String → Body
  | none, err => .err err
  | some ids, _ => .result (caseResult md5 keepIds ids)

def scalarBody (value : ℤ) : Body :=
  .result { n := value, uniq := value, h := s!"v{value}", ids := none }

/-! ## The class of two results -/

theorem classifyResults_eq_ok_iff {o t : Result} :
    (classifyResults o t).1 = .ok ↔ o.n = t.n ∧ o.uniq = t.uniq ∧ o.h = t.h := by
  unfold classifyResults
  split_ifs with hsame hdup
  · simpa using hsame
  · simpa using hsame
  · split <;> simpa using hsame

theorem classifyResults_eq_dup_iff {o t : Result} :
    (classifyResults o t).1 = .dup ↔ t.n ≠ t.uniq ∧ o.n = o.uniq := by
  unfold classifyResults
  split_ifs with hsame hdup
  · simp only [Prod.mk.injEq] at hsame
    obtain ⟨hn, huniq, -⟩ := hsame
    simp only [false_iff, not_and]
    intro ht ho
    exact ht (by rw [← hn, ← huniq, ho])
  · simpa using hdup
  · split <;> simpa using hdup

theorem classifyResults_cases (o t : Result) :
    (classifyResults o t).1 = .ok ∨ (classifyResults o t).1 = .dup ∨
      (classifyResults o t).1 = .mismatch := by
  unfold classifyResults
  split_ifs
  · exact Or.inl rfl
  · exact Or.inr (Or.inl rfl)
  · split <;> exact Or.inr (Or.inr rfl)

theorem classifyResults_congr {o o' t t' : Result}
    (ho : (o.n, o.uniq, o.h) = (o'.n, o'.uniq, o'.h))
    (ht : (t.n, t.uniq, t.h) = (t'.n, t'.uniq, t'.h)) :
    (classifyResults o t).1 = (classifyResults o' t').1 := by
  simp only [Prod.mk.injEq] at ho ht
  obtain ⟨hon, hou, hoh⟩ := ho
  obtain ⟨htn, htu, hth⟩ := ht
  unfold classifyResults
  rw [hon, hou, hoh, htn, htu, hth]
  split_ifs
  · rfl
  · rfl
  · split <;> split <;> rfl

end HugeGraphValidation.Suite

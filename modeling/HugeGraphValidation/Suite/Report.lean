import HugeGraphValidation.Lib.Keyed
import HugeGraphValidation.Suite.Record

/-!
# The report of a run

A run of the suite is a sequence of calls `sec`, `case` and `scalar`.  The
report renames a case whose key is taken, and with an expected report it
classifies every case when it is recorded.
-/

namespace HugeGraphValidation.Suite

open Lib

/-- What a call prints: a heading, or a case with its inline class and note. -/
inductive Printed where
  | heading (text : String)
  | case (line : String) (verdict : Option (Cls × String))
  deriving DecidableEq

def Printed.verdict : Printed → Option (Cls × String)
  | heading _ => none
  | case _ verdict => verdict

def Printed.text : Printed → String
  | heading text => text
  | case line none => line
  | case line (some (cls, note)) =>
      line ++ s!"  [{cls.text}" ++ (if note = "" then "" else " " ++ note) ++ "]"

structure Report where
  cases : List Record
  keys : List (String × String)
  sec : String
  keepIds : Bool
  tally : List (Cls × ℕ)
  expect : Option (List Record)
  printed : List Printed

namespace Report

def init (expect : Option (List Record)) (keepIds : Bool) : Report :=
  ⟨[], [], "?", keepIds, [], expect, []⟩

/-- `tally[cls] = tally.get(cls, 0) + 1` -/
def count (cls : Cls) : List (Cls × ℕ) → List (Cls × ℕ)
  | [] => [(cls, 1)]
  | (c, n) :: tally => if c = cls then (c, n + 1) :: tally else (c, n) :: count cls tally

/-- `f"{name:72}"` -/
def padded (name : String) : String := name ++ "".pushn ' ' (72 - name.length)

def caseLine (record : Record) : String :=
  match record.body with
  | .err none => s!"ERR   {record.sec} {padded record.name} None"
  | .err (some message) => s!"ERR   {record.sec} {padded record.name} {message}"
  | .result r =>
      s!"CASE  {record.sec} {padded record.name} n={r.n} uniq={r.uniq} h={r.h}"

def sectionStart (rep : Report) (code title : String) : Report :=
  { rep with sec := code, printed := rep.printed ++ [.heading s!"\n=== {code}. {title} ==="] }

/-- `_name(name)`: the key under which a case is recorded.  Among one more
candidates than taken keys one is free. -/
def freshKey (rep : Report) (name : String) : String × String :=
  (skipTaken rep.keys (fun i ↦ (rep.sec, s!"{name} #{i}")) (rep.keys.length + 1)
    (rep.sec, name) 2).getD (rep.sec, name)

/-- The class and the note of a case against the expected report. -/
def inlineVerdict (expected : List Record) (record : Record) : Cls × String :=
  classify (lookup Record.key expected record.key) record

/-- `_emit(rec, line)` -/
def emit (rep : Report) (record : Record) (line : String) : Report :=
  match rep.expect with
  | none =>
      { rep with
        cases := rep.cases ++ [record]
        printed := rep.printed ++ [.case line none] }
  | some expected =>
      let verdict := inlineVerdict expected record
      { rep with
        tally := count verdict.1 rep.tally
        cases := rep.cases ++ [record]
        printed := rep.printed ++ [.case line (some verdict)] }

def add (rep : Report) (name : String) (body : Body) : Report :=
  let key := rep.freshKey name
  let record : Record := ⟨rep.sec, key.2, body⟩
  emit { rep with keys := key :: rep.keys } record (caseLine record)

def addCase (md5 : Md5) (rep : Report) (name : String) (ids : Option (List Id))
    (err : Option String) : Report :=
  rep.add name (caseBody md5 rep.keepIds ids err)

def addScalar (rep : Report) (name : String) (value : ℤ) : Report :=
  rep.add name (scalarBody value)

end Report

inductive Call where
  | sec (code title : String)
  | case (name : String) (ids : Option (List Id)) (err : Option String)
  | scalar (name : String) (value : ℤ)

/-- The section that a call opens, or the name of the case that it records. -/
def Call.heading : Call → String ⊕ String
  | .sec code _ => .inl code
  | .case name _ _ => .inr name
  | .scalar name _ => .inr name

def Call.body (md5 : Md5) (keepIds : Bool) : Call → Option Body
  | .sec _ _ => none
  | .case _ ids err => some (caseBody md5 keepIds ids err)
  | .scalar _ value => some (scalarBody value)

namespace Report

def call (md5 : Md5) (rep : Report) : Call → Report
  | .sec code title => rep.sectionStart code title
  | .case name ids err => rep.addCase md5 name ids err
  | .scalar name value => rep.addScalar name value

def run (md5 : Md5) (expect : Option (List Record)) (keepIds : Bool) (calls : List Call) :
    Report :=
  calls.foldl (call md5) (init expect keepIds)

/-! ## Fresh keys -/

theorem numbered_injective (sec name : String) :
    Function.Injective fun i : ℕ ↦ (sec, s!"{name} #{i}") := by
  intro i j h
  have hname : name ++ " #" ++ toString i = name ++ " #" ++ toString j := (Prod.mk.inj h).2
  have hchars := congrArg String.toList hname
  simp only [String.toList_append, List.append_cancel_left_eq, String.toList_inj] at hchars
  exact Nat.repr_inj.mp hchars

theorem numbered_ne (sec name : String) (i : ℕ) : (sec, s!"{name} #{i}") ≠ (sec, name) := by
  intro h
  have hname : name ++ " #" ++ toString i = name := (Prod.mk.inj h).2
  have hlength := congrArg String.length hname
  simp only [String.length_append] at hlength
  have hhash : " #".length = 2 := rfl
  omega

theorem freshKey_not_mem (rep : Report) (name : String) : rep.freshKey name ∉ rep.keys := by
  have hsome := skipTaken_isSome (i := 2) (numbered_injective rep.sec name)
    (numbered_ne rep.sec name) (Nat.lt_succ_self rep.keys.length)
  obtain ⟨key, hkey⟩ := Option.isSome_iff_exists.mp hsome
  rw [freshKey, hkey, Option.getD_some]
  exact not_mem_of_skipTaken hkey

theorem freshKey_fst (rep : Report) (name : String) : (rep.freshKey name).1 = rep.sec := by
  unfold freshKey
  cases hkey : skipTaken rep.keys (fun i ↦ (rep.sec, s!"{name} #{i}")) (rep.keys.length + 1)
      (rep.sec, name) 2 with
  | none => rfl
  | some key =>
      rcases eq_or_exists_of_skipTaken hkey with rfl | ⟨j, rfl⟩
      · rfl
      · rfl

/-! ## One call -/

section Step

variable (rep : Report)

theorem emit_cases (record : Record) (line : String) :
    (rep.emit record line).cases = rep.cases ++ [record] := by
  unfold emit
  split <;> rfl

theorem emit_keys (record : Record) (line : String) :
    (rep.emit record line).keys = rep.keys := by
  unfold emit
  split <;> rfl

theorem emit_keepIds (record : Record) (line : String) :
    (rep.emit record line).keepIds = rep.keepIds := by
  unfold emit
  split <;> rfl

theorem add_cases (name : String) (body : Body) :
    (rep.add name body).cases = rep.cases ++ [⟨rep.sec, (rep.freshKey name).2, body⟩] :=
  emit_cases _ _ _

theorem add_keys (name : String) (body : Body) :
    (rep.add name body).keys = rep.freshKey name :: rep.keys :=
  emit_keys _ _ _

end Step

theorem run_induction {P : Report → Prop} (md5 : Md5) {expect : Option (List Record)}
    {keepIds : Bool} (hinit : P (init expect keepIds))
    (hsec : ∀ rep code title, P rep → P (sectionStart rep code title))
    (hadd : ∀ rep name body, P rep → P (add rep name body)) (calls : List Call) :
    P (run md5 expect keepIds calls) := by
  unfold run
  induction calls using List.reverseRecOn with
  | nil => exact hinit
  | append_singleton calls c ih =>
      rw [List.foldl_append]
      cases c with
      | sec code title => exact hsec _ code title ih
      | case name ids err => exact hadd _ name _ ih
      | scalar name value => exact hadd _ name _ ih

/-! ## What a run records -/

theorem call_keepIds (md5 : Md5) (rep : Report) (c : Call) :
    (rep.call md5 c).keepIds = rep.keepIds := by
  cases c with
  | sec code title => rfl
  | case name ids err => exact emit_keepIds _ _ _
  | scalar name value => exact emit_keepIds _ _ _

theorem call_bodies (md5 : Md5) (rep : Report) (c : Call) :
    (rep.call md5 c).cases.map Record.body =
      rep.cases.map Record.body ++ (c.body md5 rep.keepIds).toList := by
  cases c with
  | sec code title => exact (List.append_nil _).symm
  | case name ids err => rw [call, addCase, add_cases, List.map_append]; rfl
  | scalar name value => rw [call, addScalar, add_cases, List.map_append]; rfl

theorem run_bodies (md5 : Md5) (expect : Option (List Record)) (keepIds : Bool)
    (calls : List Call) :
    (run md5 expect keepIds calls).keepIds = keepIds ∧
      (run md5 expect keepIds calls).cases.map Record.body =
        calls.filterMap (Call.body md5 keepIds) := by
  unfold run
  induction calls using List.reverseRecOn with
  | nil => exact ⟨rfl, rfl⟩
  | append_singleton calls c ih =>
      rw [List.foldl_append, List.foldl_cons, List.foldl_nil, call_keepIds, call_bodies, ih.1,
        ih.2, List.filterMap_append]
      refine ⟨rfl, ?_⟩
      congr 1

/-! ## Keys are distinct -/

structure Keyed (rep : Report) : Prop where
  nodup : (rep.cases.map Record.key).Nodup
  taken : ∀ record ∈ rep.cases, record.key ∈ rep.keys

theorem Keyed.add {rep : Report} (hkeyed : Keyed rep) (name : String) (body : Body) :
    Keyed (rep.add name body) := by
  have hkey : Record.key ⟨rep.sec, (rep.freshKey name).2, body⟩ = rep.freshKey name := by
    rw [Record.key, ← rep.freshKey_fst name]
  have hfresh := rep.freshKey_not_mem name
  exact
    { nodup := by
        rw [add_cases, List.map_append, List.map_singleton, hkey, List.nodup_append]
        refine ⟨hkeyed.nodup, List.nodup_singleton _, ?_⟩
        rintro _ hold _ hnew rfl
        obtain ⟨record, hrecord, hold⟩ := List.mem_map.mp hold
        rw [List.mem_singleton] at hnew
        exact hfresh (hnew ▸ hold ▸ hkeyed.taken record hrecord)
      taken := by
        intro record hrecord
        rw [add_cases, List.mem_append, List.mem_singleton] at hrecord
        rw [add_keys]
        rcases hrecord with hrecord | rfl
        · exact List.mem_cons_of_mem _ (hkeyed.taken record hrecord)
        · rw [hkey]
          exact List.mem_cons_self }

theorem run_keyed (md5 : Md5) (expect : Option (List Record)) (keepIds : Bool)
    (calls : List Call) : Keyed (run md5 expect keepIds calls) := by
  apply run_induction
  · exact ⟨List.nodup_nil, by simp [init]⟩
  · exact fun _ _ _ hkeyed ↦ ⟨hkeyed.nodup, hkeyed.taken⟩
  · exact fun _ name body hkeyed ↦ hkeyed.add name body

/-! ## Runs with the same headings -/

theorem freshKey_congr {rep rep' : Report} (hsec : rep.sec = rep'.sec)
    (hkeys : rep.keys = rep'.keys) (name : String) :
    rep.freshKey name = rep'.freshKey name := by
  rw [freshKey, freshKey, hsec, hkeys]

structure SameKeys (rep rep' : Report) : Prop where
  sec : rep.sec = rep'.sec
  keys : rep.keys = rep'.keys
  cases : rep.cases.map Record.key = rep'.cases.map Record.key

theorem emit_sec (rep : Report) (record : Record) (line : String) :
    (rep.emit record line).sec = rep.sec := by
  unfold emit
  split <;> rfl

theorem SameKeys.add {rep rep' : Report} (hsame : SameKeys rep rep') (name : String)
    (body body' : Body) : SameKeys (rep.add name body) (rep'.add name body') := by
  have hfresh := freshKey_congr hsame.sec hsame.keys name
  exact
    { sec := by
        rw [Report.add, Report.add, emit_sec, emit_sec]
        exact hsame.sec
      keys := by rw [add_keys, add_keys, hfresh, hsame.keys]
      cases := by
        rw [add_cases, add_cases, List.map_append, List.map_append, hsame.cases, hsame.sec, hfresh]
        rfl }

theorem SameKeys.call {md5 : Md5} {rep rep' : Report} (hsame : SameKeys rep rep') {c c' : Call}
    (hheading : c.heading = c'.heading) : SameKeys (rep.call md5 c) (rep'.call md5 c') := by
  cases c with
  | sec code title =>
      cases c' with
      | sec code' title' => exact ⟨Sum.inl.inj hheading, hsame.keys, hsame.cases⟩
      | case name ids err => cases hheading
      | scalar name value => cases hheading
  | case name ids err =>
      cases c' with
      | sec code title => cases hheading
      | case name' ids' err' =>
          obtain rfl : name = name' := Sum.inr.inj hheading
          exact hsame.add name _ _
      | scalar name' value =>
          obtain rfl : name = name' := Sum.inr.inj hheading
          exact hsame.add name _ _
  | scalar name value =>
      cases c' with
      | sec code title => cases hheading
      | case name' ids' err' =>
          obtain rfl : name = name' := Sum.inr.inj hheading
          exact hsame.add name _ _
      | scalar name' value' =>
          obtain rfl : name = name' := Sum.inr.inj hheading
          exact hsame.add name _ _

theorem run_sameKeys (md5 : Md5) (expect expect' : Option (List Record)) (keepIds keepIds' : Bool)
    {calls calls' : List Call}
    (hheadings : List.Forall₂ (fun c c' ↦ c.heading = c'.heading) calls calls') :
    SameKeys (run md5 expect keepIds calls) (run md5 expect' keepIds' calls') := by
  apply List.rel_foldl (P := SameKeys) (R := fun c c' ↦ c.heading = c'.heading)
  · exact fun _ _ hsame _ _ hheading ↦ hsame.call hheading
  · exact ⟨rfl, rfl, rfl⟩
  · exact hheadings

end Report

end HugeGraphValidation.Suite

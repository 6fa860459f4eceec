import HugeGraphValidation.Bench.DecimalText
import HugeGraphValidation.Bench.GraphSON
import HugeGraphValidation.Faults.SnapshotRace
import HugeGraphValidation.Lib.Counts
import HugeGraphValidation.Lib.Keyed
import HugeGraphValidation.Suite.Walk

/-!
# The Gremlin checks of the decimals

`decimal_e2e.py` sends four scripts through the REST proxy and, in three versions
of GraphSON, to gremlin-server itself, and compares every answer with an exact
decimal.  A version that the server does not speak counts for nothing.
-/

namespace HugeGraphValidation.Bench

open Faults Lib Suite

variable {F : Type}

inductive CheckStatus where
  | pass
  | fail
  | na
  deriving DecidableEq

structure CheckRow where
  check : String
  status : CheckStatus
  detail : String

/-- `record(check, ok, detail)` -/
def checkRow (check : String) (ok : Option Bool) (detail : String) : CheckRow where
  check := check
  status := if ok = some true then .pass else if ok = none then .na else .fail
  detail := detail

structure CheckSummary where
  pass : ℕ
  fail : ℕ
  na : ℕ
  deriving DecidableEq

def checkSummary (rows : List CheckRow) : CheckSummary where
  pass := rows.countP fun r ↦ r.status = .pass
  fail := rows.countP fun r ↦ r.status = .fail
  na := rows.countP fun r ↦ r.status = .na

/-- `sys.exit(1 if fails else 0)` -/
def checksExit (rows : List CheckRow) : ℕ :=
  if (rows.filter fun r ↦ r.status = .fail).isEmpty then 0 else 1

/-! ## One answer -/

/-- An answer of the endpoint: its status, the two texts that an error may have, the
whole answer as text, and `d.get("result", {}).get("data")`. -/
structure GremlinAnswer (F : Type) where
  status : ℕ
  message : Option String
  exception : Option String
  text : String
  data : Json F

/-- `(d.get("message") or d.get("exception") or str(d))[:160]` -/
def GremlinAnswer.err (d : GremlinAnswer F) : String :=
  clip 160 <|
    ((d.message.filter fun m ↦ m ≠ "").or (d.exception.filter fun m ↦ m ≠ "")).getD d.text

section Checks

variable (fl : Floats F) (repr : Py F → String)

/-- `Decimal(str(val))`, where this is a number -/
def Scalar.decimal : Scalar F → Option ℚ
  | .str s => decimalOf s
  | .int n => some n
  | .float x => fl.spelled x
  | _ => none

/-- `got[0]` of a list with one item -/
def onlyItem : Py F → Py F
  | .list [x] => x
  | got => got

/-- The value under the tag of a decimal. -/
def decimalValue (typed : Bool) (got : Py F) : Option (Py F) :=
  if typed then
    match got with
    | .tuple (.scalar (.str "gx:BigDecimal")) v => some v
    | _ => none
  else some got

def notAString : Py F → String
  | .scalar (.int _) => " (JSON number, not a string)"
  | .scalar (.float _) => " (JSON number, not a string)"
  | _ => ""

/-- `expect_decimal(got, want, typed)` -/
def expectDecimal (got : Py F) (want : ℚ) (typed : Bool) : Bool × String :=
  let got := onlyItem got
  match decimalValue typed got with
  | none => (false, s!"got {repr got}")
  | some val =>
      let exact : Bool :=
        match val with
        | .scalar s => s.decimal fl = some want
        | _ => false
      (exact, s!"got {repr got}{notAString val}")

/-- `gremlin_rest` and `gremlin_direct`, given the answer of the request; nothing
where `unwrap` raises. -/
def gremlinResult (d : GremlinAnswer F) : Option (ℕ × Py F) :=
  if d.status ≠ 200 then some (d.status, .scalar (.str d.err))
  else (unwrap fl d.data).map fun got ↦ (d.status, got)

structure Script where
  label : String
  text : String
  want : ℚ

def uint256Max : ℚ := 2 ^ 256 - 1

def wei : ℚ := 1 / 10 ^ 18

/-- The scripts, with the prefix of the schema and the ids of two vertices. -/
def scripts (P va ve : String) : List Script :=
  [⟨"values(balance) uint256 max", s!"g.V({va}).values('{P}balance')", uint256Max⟩,
    ⟨"g.inject(1.5) Groovy literal", "g.inject(1.5)", 3 / 2⟩,
    ⟨"values(fee) default", s!"g.V({ve}).values('{P}fee')", wei⟩,
    ⟨"sum() over balances", s!"g.V().hasLabel('{P}acct').values('{P}balance').sum()",
      uint256Max + wei * 2 + (-3 / 2) + 10 ^ 128 + (10 ^ 128 - 1)⟩]

inductive Version where
  | v1
  | v2
  | v3
  deriving DecidableEq

def versions : List Version := [.v1, .v2, .v3]

def Version.name : Version → String
  | .v1 => "v1"
  | .v2 => "v2"
  | .v3 => "v3"

def Version.accept : Version → String
  | .v1 => "application/vnd.gremlin-v1.0+json"
  | .v2 => "application/vnd.gremlin-v2.0+json"
  | .v3 => "application/vnd.gremlin-v3.0+json"

/-- `isinstance(got, list) and got and isinstance(got[0], tuple)` -/
def startsTyped : Py F → Bool
  | .list (.tuple _ _ :: _) => true
  | _ => false

/-- `str(got)` -/
def shown : Py F → String
  | .scalar (.str s) => s
  | got => repr got

/-- `ok, det` -/
def judgedAnswer (st : ℕ) (got : Py F) (want : ℚ) (typed : Bool) : Bool × String :=
  if st ≠ 200 then (false, shown repr got) else expectDecimal fl repr got want typed

/-- `st == 400 and isinstance(got, str) and "no serializer …" in got` -/
def noSerializer (st : ℕ) : Py F → Bool
  | .scalar (.str s) => st = 400 && mentions "no serializer for requested Accept" s
  | _ => false

def restRow (s : Script) (st : ℕ) (got : Py F) : CheckRow :=
  let judged := judgedAnswer fl repr st got s.want (startsTyped got)
  checkRow s!"R5 /gremlin REST proxy: {s.label}" (some judged.1) s!"HTTP {st} {judged.2}"

def directRow (v : Version) (s : Script) (st : ℕ) (got : Py F) : CheckRow :=
  let check := s!"R6 gremlin-server {v.name}: {s.label}"
  if noSerializer st got then checkRow check none s!"HTTP {st} {shown repr got}"
  else
    let judged := judgedAnswer fl repr st got s.want (v ≠ .v1)
    checkRow check (some judged.1) s!"HTTP {st} {judged.2}"

variable (rest : String → GremlinAnswer F) (direct : String → String → GremlinAnswer F)

def restCheck (s : Script) : Option CheckRow :=
  (gremlinResult fl (rest s.text)).map fun got ↦ restRow fl repr s got.1 got.2

def directCheck (v : Version) (s : Script) : Option CheckRow :=
  (gremlinResult fl (direct s.text v.accept)).map fun got ↦ directRow fl repr v s got.1 got.2

/-- The requests to gremlin-server: every script in the first version, and so on. -/
def requests (ss : List Script) : List (Version × Script) :=
  versions.flatMap fun v ↦ ss.map fun s ↦ (v, s)

/-- `gremlin_checks`, over its scripts -/
def gremlinChecks (ss : List Script) : Option (List CheckRow) := do
  let proxied ← ss.mapM (restCheck fl repr rest)
  let served ← (requests ss).mapM fun p ↦ directCheck fl repr direct p.1 p.2
  some (proxied ++ served)

end Checks

/-! ## What the endpoints send -/

/-- The one result of a script: its type and its value. -/
structure Sent (F : Type) where
  tag : ScalarTag
  value : Scalar F

def Version.encode : Version → Sent F → Json F
  | .v1, x => .list [.scalar x.value]
  | .v2, x => .list [tagged x.tag.name (.scalar x.value)]
  | .v3, x => graphson (.list [.typed x.tag x.value])

def Version.decoded : Version → Sent F → Py F
  | .v1, x => .list [.scalar x.value]
  | _, x => .list [.tuple (.scalar (.str x.tag.name)) (.scalar x.value)]

structure Answers (d : GremlinAnswer F) (v : Version) (x : Sent F) : Prop where
  status : d.status = 200
  data : d.data = v.encode x

structure Refuses (d : GremlinAnswer F) : Prop where
  status : d.status = 400
  err : mentions "no serializer for requested Accept" d.err = true

section Exact

variable (fl : Floats F)

/-- The number itself and, in a version with types, the type of a decimal. -/
structure Exact (v : Version) (x : Sent F) (want : ℚ) : Prop where
  value : x.value.decimal fl = some want
  tag : v ≠ .v1 → x.tag.name = "gx:BigDecimal"

variable {fl} {repr : Py F → String}

theorem unwrap_encode (v : Version) (x : Sent F) :
    unwrap fl (v.encode x) = some (v.decoded x) := by
  cases v with
  | v1 => rfl
  | v2 => rw [Version.encode, unwrap, unwrapAll, unwrap_scalar_tag]; rfl
  | v3 =>
      rw [Version.encode, graphson, unwrap_list_tag, graphsonAll, unwrapAll, graphson,
        unwrap_scalar_tag]
      rfl

theorem startsTyped_decoded (v : Version) (x : Sent F) :
    startsTyped (v.decoded x) = decide (v ≠ .v1) := by
  cases v <;> rfl

theorem decimalValue_tuple (tag : String) (v : Py F) :
    decimalValue true (.tuple (.scalar (.str tag)) v) =
      if tag = "gx:BigDecimal" then some v else none := by
  split
  · rename_i htag
    subst htag
    rfl
  · rename_i htag
    unfold decimalValue
    rw [if_pos rfl]
    split
    · rename_i heq
      exact absurd (Scalar.str.inj (Py.scalar.inj (Py.tuple.inj heq).1)) htag
    · rfl

variable (repr) in
theorem expectDecimal_decoded (v : Version) (x : Sent F) (want : ℚ) :
    (expectDecimal fl repr (v.decoded x) want (v ≠ .v1)).1 = true ↔ Exact fl v x want := by
  have hexact : Exact fl v x want ↔
      x.value.decimal fl = some want ∧ (v ≠ .v1 → x.tag.name = "gx:BigDecimal") :=
    ⟨fun h ↦ ⟨h.value, h.tag⟩, fun h ↦ ⟨h.1, h.2⟩⟩
  rw [hexact]
  cases v with
  | v1 => simp [expectDecimal, Version.decoded, onlyItem, decimalValue]
  | v2 =>
      simp only [expectDecimal, Version.decoded, onlyItem]
      rw [show decide (Version.v2 ≠ .v1) = true from rfl, decimalValue_tuple]
      by_cases htag : x.tag.name = "gx:BigDecimal"
      · simp [htag]
      · simp [htag]
  | v3 =>
      simp only [expectDecimal, Version.decoded, onlyItem]
      rw [show decide (Version.v3 ≠ .v1) = true from rfl, decimalValue_tuple]
      by_cases htag : x.tag.name = "gx:BigDecimal"
      · simp [htag]
      · simp [htag]

theorem gremlinResult_of_answers {d : GremlinAnswer F} {v : Version} {x : Sent F}
    (h : Answers d v x) : gremlinResult fl d = some (200, v.decoded x) := by
  simp [gremlinResult, h.status, h.data, unwrap_encode]

theorem gremlinResult_of_refuses {d : GremlinAnswer F} (h : Refuses d) :
    gremlinResult fl d = some (400, .scalar (.str d.err)) := by
  simp [gremlinResult, h.status]

/-! ## The rows -/

theorem checkRow_judged (check detail : String) (ok : Bool) :
    ((checkRow check (some ok) detail).status ≠ .fail ↔ ok = true) ∧
      ((checkRow check (some ok) detail).status = .na ↔ False) := by
  cases ok <;> simp [checkRow]

variable (repr) in
theorem judgedAnswer_decoded (v : Version) (x : Sent F) (want : ℚ) :
    (judgedAnswer fl repr 200 (v.decoded x) want (v ≠ .v1)).1 = true ↔ Exact fl v x want := by
  rw [← expectDecimal_decoded repr]
  rfl

variable (fl repr) in
theorem restCheck_of_answers {rest : String → GremlinAnswer F} {v : Version} {x : Sent F}
    {s : Script} (h : Answers (rest s.text) v x) :
    ∃ row, restCheck fl repr rest s = some row ∧
      (row.status ≠ .fail ↔ Exact fl v x s.want) ∧ (row.status = .na ↔ False) := by
  rw [restCheck, gremlinResult_of_answers h, Option.map_some, ← judgedAnswer_decoded repr]
  refine ⟨_, rfl, ?_⟩
  rw [restRow, startsTyped_decoded]
  exact checkRow_judged _ _ _

variable (fl repr) in
theorem directCheck_of_answers {direct : String → String → GremlinAnswer F} {v : Version}
    {x : Sent F} {s : Script} (h : Answers (direct s.text v.accept) v x) :
    ∃ row, directCheck fl repr direct v s = some row ∧
      (row.status ≠ .fail ↔ Exact fl v x s.want) ∧ (row.status = .na ↔ False) := by
  have hspoken : noSerializer 200 (v.decoded x) = false := by
    cases v <;> rfl
  rw [directCheck, gremlinResult_of_answers h, Option.map_some, ← judgedAnswer_decoded repr]
  refine ⟨_, rfl, ?_⟩
  rw [directRow, hspoken]
  exact checkRow_judged _ _ _

variable (fl repr) in
theorem directCheck_of_refuses {direct : String → String → GremlinAnswer F} {v : Version}
    {s : Script} (h : Refuses (direct s.text v.accept)) :
    ∃ row, directCheck fl repr direct v s = some row ∧
      (row.status ≠ .fail ↔ True) ∧ (row.status = .na ↔ True) := by
  have hrefused :
      noSerializer (F := F) 400 (.scalar (.str (direct s.text v.accept).err)) = true := by
    simp [noSerializer, h.err]
  rw [directCheck, gremlinResult_of_refuses h, Option.map_some]
  refine ⟨_, rfl, ?_⟩
  rw [directRow, hrefused]
  simp [checkRow]

end Exact

theorem checkSummary_total (rows : List CheckRow) :
    (checkSummary rows).pass + (checkSummary rows).fail + (checkSummary rows).na = rows.length := by
  induction rows with
  | nil => rfl
  | cons row rows ih =>
      simp only [checkSummary, List.countP_cons, List.length_cons] at ih ⊢
      rw [← ih]
      cases row.status <;> simp <;> omega

theorem checksExit_eq_zero_iff {rows : List CheckRow} :
    checksExit rows = 0 ↔ ∀ r ∈ rows, r.status ≠ .fail := by
  simp [checksExit, List.filter_eq_nil_iff]

theorem mem_requests {ss : List Script} {p : Version × Script} : p ∈ requests ss ↔ p.2 ∈ ss := by
  obtain ⟨v, s⟩ := p
  cases v <;> simp [requests, versions]

theorem length_requests (ss : List Script) : (requests ss).length = 3 * ss.length := by
  simp only [requests, versions, List.flatMap_cons, List.flatMap_nil, List.length_append,
    List.length_map, List.length_nil]
  omega

theorem exists_directCheck {fl : Floats F} {repr : Py F → String}
    {direct : String → String → GremlinAnswer F} {v : Version} {s : Script} {o : Option (Sent F)}
    (hanswers : ∀ x, o = some x → Answers (direct s.text v.accept) v x)
    (hrefuses : o = none → Refuses (direct s.text v.accept)) :
    ∃ row, directCheck fl repr direct v s = some row ∧
      (row.status ≠ .fail ↔ ∀ x, o = some x → Exact fl v x s.want) ∧
        (row.status = .na ↔ o = none) := by
  cases o with
  | none =>
      obtain ⟨row, hrow, hfail, hna⟩ := directCheck_of_refuses fl repr (hrefuses rfl)
      exact ⟨row, hrow, by simpa using hfail, by simpa using hna⟩
  | some x =>
      obtain ⟨row, hrow, hfail, hna⟩ := directCheck_of_answers fl repr (hanswers x rfl)
      exact ⟨row, hrow, by simpa using hfail, by simpa using hna⟩

/-- The run over servers that answer every script with one value, in the format of
the version, or refuse the version: it ends with status 0 exactly when nothing
failed before and every value sent is the decimal that is expected, with its type
where there are types.  Only the refused requests are counted as N-A. -/
theorem gremlin_checks_exact (fl : Floats F) (repr : Py F → String)
    (rest : String → GremlinAnswer F) (direct : String → String → GremlinAnswer F)
    (ss : List Script) (proxy : Version) (sentRest : Script → Sent F)
    (sentDirect : Version → Script → Option (Sent F)) (before : List CheckRow)
    (hrest : ∀ s ∈ ss, Answers (rest s.text) proxy (sentRest s))
    (hanswers : ∀ v, ∀ s ∈ ss, ∀ x, sentDirect v s = some x →
      Answers (direct s.text v.accept) v x)
    (hrefuses : ∀ v, ∀ s ∈ ss, sentDirect v s = none → Refuses (direct s.text v.accept)) :
    ∃ rows, gremlinChecks fl repr rest direct ss = some rows ∧
      (checkSummary rows).pass + (checkSummary rows).fail + (checkSummary rows).na =
        4 * ss.length ∧
      (checksExit (before ++ rows) = 0 ↔
        (∀ r ∈ before, r.status ≠ .fail) ∧
          (∀ s ∈ ss, Exact fl proxy (sentRest s) s.want) ∧
          ∀ v, ∀ s ∈ ss, ∀ x, sentDirect v s = some x → Exact fl v x s.want) ∧
      (checkSummary rows).na = (requests ss).countP fun p ↦ (sentDirect p.1 p.2).isNone := by
  obtain ⟨proxied, hproxied, hrestRows⟩ := exists_mapM_forall₂ fun s hs ↦
    restCheck_of_answers fl repr (hrest s hs)
  have hdirect : ∀ p ∈ requests ss, ∃ row, directCheck fl repr direct p.1 p.2 = some row ∧
      (row.status ≠ .fail ↔ ∀ x, sentDirect p.1 p.2 = some x → Exact fl p.1 x p.2.want) ∧
        (row.status = .na ↔ sentDirect p.1 p.2 = none) := by
    intro p hp
    have hs := mem_requests.mp hp
    exact exists_directCheck (hanswers p.1 p.2 hs) (hrefuses p.1 p.2 hs)
  obtain ⟨served, hserved, hdirectRows⟩ := exists_mapM_forall₂ hdirect
  refine ⟨proxied ++ served, by rw [gremlinChecks, hproxied, hserved]; rfl, ?_, ?_, ?_⟩
  · rw [checkSummary_total, List.length_append, ← hrestRows.length_eq,
      ← hdirectRows.length_eq, length_requests]
    omega
  · have hrestExact : (∀ r ∈ proxied, r.status ≠ .fail) ↔
        ∀ s ∈ ss, Exact fl proxy (sentRest s) s.want :=
      forall_iff_of_forall₂ (hrestRows.imp fun _ _ h ↦ h.1)
    have hdirectExact : (∀ r ∈ served, r.status ≠ .fail) ↔
        ∀ p ∈ requests ss, ∀ x, sentDirect p.1 p.2 = some x → Exact fl p.1 x p.2.want :=
      forall_iff_of_forall₂ (hdirectRows.imp fun _ _ h ↦ h.1)
    rw [checksExit_eq_zero_iff, List.forall_mem_append, List.forall_mem_append, hrestExact,
      hdirectExact]
    refine and_congr_right fun _ ↦ and_congr_right fun _ ↦ ?_
    exact ⟨fun h v s hs ↦ h (v, s) (mem_requests.mpr hs),
      fun h p hp ↦ h p.1 p.2 (mem_requests.mp hp)⟩
  · have hproxiedNone : proxied.countP (fun r ↦ r.status = .na) = ss.countP fun _ ↦ false :=
      countP_eq_of_forall₂ (hrestRows.imp fun _ _ h ↦ by simpa using h.2)
    have hservedNone : served.countP (fun r ↦ r.status = .na) =
        (requests ss).countP fun p ↦ (sentDirect p.1 p.2).isNone :=
      countP_eq_of_forall₂ (hdirectRows.imp fun _ _ h ↦ by simpa using h.2)
    change (proxied ++ served).countP (fun r ↦ r.status = .na) = _
    rw [List.countP_append, hproxiedNone, hservedNone]
    simp

/-- The four scripts on two vertices. -/
def acctScripts : List Script := scripts "acct_" "\"1:a\"" "\"1:e\""

/-- A decimal with eighteen digits behind the point. -/
def atWei (q : ℚ) : PyDecimal := ⟨q < 0, (q * 10 ^ 18).num.natAbs, -18⟩

def wantedOf (s : Script) : Sent ℚ := ⟨bigDecimal, .str (atWei s.want).dstr⟩

/-- What the server sends for the text of a script, in a version. -/
def acctAnswer (v : Version) (text : String) : GremlinAnswer ℚ :=
  match lookup Script.text acctScripts text with
  | some s => ⟨200, none, none, "", v.encode (wantedOf s)⟩
  | none => ⟨500, some "no such script", none, "", .dict []⟩

def refusal : GremlinAnswer ℚ :=
  ⟨400, some "no serializer for requested Accept header", none, "", .dict []⟩

/-- The version 1 is refused, the others answer. -/
def acctDirect (text accept : String) : GremlinAnswer ℚ :=
  if accept = Version.v2.accept then acctAnswer .v2 text
  else if accept = Version.v3.accept then acctAnswer .v3 text
  else refusal

theorem answers_acctAnswer (v : Version) {s : Script} (hs : s ∈ acctScripts) :
    Answers (acctAnswer v s.text) v (wantedOf s) := by
  have hnodup : (acctScripts.map Script.text).Nodup := by decide +kernel
  have hlookup : lookup Script.text acctScripts s.text = some s :=
    (lookup_eq_some_iff hnodup).mpr ⟨hs, rfl⟩
  rw [acctAnswer, hlookup]
  exact ⟨rfl, rfl⟩

/-- Sixteen requests, of which those in version 1 are refused. -/
theorem gremlin_checks_exact_scripts :
    ∃ rows, gremlinChecks rationals (fun _ ↦ "") (acctAnswer .v1) acctDirect acctScripts =
        some rows ∧
      checksExit ([] ++ rows) = 0 ∧ (checkSummary rows).na = 4 := by
  have hvalues : ∀ s ∈ acctScripts, (atWei s.want).value = s.want := by decide +kernel
  have hexact : ∀ v, ∀ s ∈ acctScripts, Exact rationals v (wantedOf s) s.want := by
    intro v s hs
    refine ⟨?_, fun _ ↦ rfl⟩
    have hread := PyDecimal.decimalOf_dstr (atWei s.want)
    rw [hvalues s hs] at hread
    exact hread
  have hanswers : ∀ v : Version, ∀ s ∈ acctScripts, ∀ x,
      (if v = .v1 then none else some (wantedOf s)) = some x →
        Answers (acctDirect s.text v.accept) v x := by
    intro v s hs x hx
    cases v with
    | v1 => simp at hx
    | v2 => exact Option.some.inj hx ▸ answers_acctAnswer .v2 hs
    | v3 => exact Option.some.inj hx ▸ answers_acctAnswer .v3 hs
  have hrefuses : ∀ v : Version, ∀ s ∈ acctScripts,
      (if v = .v1 then none else some (wantedOf s)) = none →
        Refuses (acctDirect s.text v.accept) := by
    intro v s _ hx
    cases v with
    | v1 =>
        have hrefusal : mentions "no serializer for requested Accept" refusal.err = true := by
          decide +kernel
        exact ⟨rfl, hrefusal⟩
    | v2 => simp at hx
    | v3 => simp at hx
  obtain ⟨rows, hrows, -, hexit, hna⟩ := gremlin_checks_exact rationals (fun _ ↦ "")
    (acctAnswer .v1) acctDirect acctScripts .v1 wantedOf
    (fun v s ↦ if v = .v1 then none else some (wantedOf s)) []
    (fun s hs ↦ answers_acctAnswer .v1 hs) hanswers hrefuses
  refine ⟨rows, hrows, hexit.mpr ⟨by simp, hexact .v1, fun v s hs x hx ↦ ?_⟩,
    hna.trans (by decide)⟩
  cases v with
  | v1 => simp at hx
  | v2 => exact Option.some.inj hx ▸ hexact .v2 s hs
  | v3 => exact Option.some.inj hx ▸ hexact .v3 s hs

end HugeGraphValidation.Bench

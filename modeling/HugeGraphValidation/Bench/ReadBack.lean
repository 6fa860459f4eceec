import HugeGraphValidation.Bench.Decimal
import HugeGraphValidation.Lib.Text

/-!
# Reading the accounts back

After the rounds the bench makes two thousand edges between the accounts, posts them,
asks for the accounts and compares each vertex of the answer with the oracle.  It walks
over the answer, so an account that the answer leaves out is compared with nothing.
-/

namespace HugeGraphValidation.Bench

open Lib

/-- A value of a property in the answer; a property that is missing is `null`. -/
inductive PropertyValue where
  | str (s : String)
  | number (q : ℚ)
  | null
  deriving DecidableEq

def digitsOf (cs : List Char) : Option ℕ :=
  if cs ≠ [] ∧ cs.all Char.isDigit then some (Nat.ofDigitChars 10 cs 0) else none

/-- Digits with at most one point between, before or behind them. -/
def decimalPart (cs : List Char) : Option ℚ :=
  match cs.dropWhile (· ≠ '.') with
  | [] => (digitsOf cs).map fun n ↦ n
  | _ :: frac =>
      (digitsOf (cs.takeWhile (· ≠ '.') ++ frac)).map fun n ↦ n / 10 ^ frac.length

def signed {α : Type} (neg : α → α) (read : List Char → Option α) (cs : List Char) : Option α :=
  match cs with
  | '-' :: cs => (read cs).map neg
  | '+' :: cs => read cs
  | cs => read cs

theorem signed_minus {α : Type} (neg : α → α) (read : List Char → Option α) (cs : List Char) :
    signed neg read ('-' :: cs) = (read cs).map neg :=
  rfl

theorem signed_of_head? {α : Type} (neg : α → α) (read : List Char → Option α) {cs : List Char}
    {c : Char} (hfirst : cs.head? = some c) (hminus : c ≠ '-') (hplus : c ≠ '+') :
    signed neg read cs = read cs := by
  unfold signed
  split
  · exact absurd (Option.some.inj hfirst).symm hminus
  · exact absurd (Option.some.inj hfirst).symm hplus
  · rfl

def unsignedDecimal (cs : List Char) : Option ℚ :=
  match cs.dropWhile fun c ↦ c ≠ 'e' && c ≠ 'E' with
  | [] => decimalPart cs
  | _ :: exponent => do
      let mantissa ← decimalPart (cs.takeWhile fun c ↦ c ≠ 'e' && c ≠ 'E')
      let exponent ← signed (- ·) (fun cs ↦ (digitsOf cs).map ((↑) : ℕ → ℤ)) exponent
      some (mantissa * 10 ^ exponent)

/-- `Decimal(s)`, where `s` is a finite number; nothing where it is none.  Blanks around
it and underscores in it do not count. -/
def decimalOf (s : String) : Option ℚ :=
  signed (- ·) unsignedDecimal ((strip s).toList.filter fun c ↦ c ≠ '_')

example : decimalOf " -1_2.50\n" = some (-25 / 2) := by decide +kernel

def PropertyValue.decimal : PropertyValue → Option ℚ
  | .str s => decimalOf s
  | .number q => some q
  | .null => none

/-- A vertex of the answer, with its properties. -/
structure AccountVertex where
  name : String
  balance : PropertyValue
  hi : PropertyValue
  lo : PropertyValue

/-- `got` -/
def AccountVertex.got (v : AccountVertex) : Option Account := do
  let balance ← v.balance.decimal
  let hi ← v.hi.decimal
  let lo ← v.lo.decimal
  some ⟨balance, hi, lo⟩

structure Checked where
  checked : ℕ
  mism : ℕ
  mismDup : ℕ
  deriving DecidableEq

section Verify

variable (names : List String) (o : Oracle) (dupset : List String)

/-- One round of the loop; nothing where the oracle has no such name or a value is
no number, which ends the bench. -/
def checkVertex (c : Checked) (v : AccountVertex) : Option Checked :=
  if v.name ∉ names then none
  else
    v.got.map fun got ↦
      let differs := seen (some got) ≠ o v.name
      let isStr := match v.balance with
        | .str _ => true
        | _ => false
      { checked := c.checked + 1
        mism := c.mism + (if differs then 1 else 0) + (if isStr then 0 else 1)
        mismDup := c.mismDup + if differs ∧ v.name ∈ dupset then 1 else 0 }

def verifyAccounts (data : List AccountVertex) : Option Checked :=
  data.foldlM (checkVertex names o dupset) ⟨0, 0, 0⟩

end Verify

/-! ## The requests before it -/

/-- An edge of the bench, between an account and the next one. -/
structure Transfer where
  outV : String
  inV : String
  seq : ℕ
  amount : ℚ

/-- What `must` looks at: the status, and whether a body that is not empty is JSON. -/
structure Reply where
  status : ℕ
  isJson : Bool

def Reply.Accepted (reply : Reply) : Prop :=
  reply.status ∈ [200, 201, 202] ∧ reply.isJson = true

instance (reply : Reply) : Decidable reply.Accepted := inferInstanceAs (Decidable (_ ∧ _))

/-- `must(st, body)` -/
def must (reply : Reply) : Option Unit := if reply.Accepted then some () else none

def postEdges (verifyOnly : Bool) (edges : Option Reply) : Option Unit :=
  if verifyOnly then some () else edges.bind must

section Transfers

variable {G : Type} (gen : Generator G) (names : List String)

/-- Edge `i` behind the ones that are drawn; nothing where `names[i]` raises. -/
def transfer (drawn : List Transfer × G) (i : ℕ) : Option (List Transfer × G) := do
  let out ← names[i]?
  let next ← names[(i + 1) % names.length]?
  let amount := randDec gen drawn.2
  some (drawn.1 ++ [⟨"1:" ++ out, "1:" ++ next, i % 7, amount.1⟩], amount.2)

/-- `edges` -/
def transfers : Option (List Transfer) :=
  ((List.range 2000).foldlM (transfer gen names) ([], gen.seed 7)).map Prod.fst

/-- The bench after its rounds, up to the first report of the mismatches: `edges` and
`query` answer the requests before the one that `data` answers, and are nothing where
`call` raises. -/
def readBack (o : Oracle) (dupset : List String) (verifyOnly : Bool) (edges query : Option Reply)
    (data : List AccountVertex) : Option Checked := do
  let _ ← transfers gen names
  postEdges verifyOnly edges
  let _ ← query
  verifyAccounts names o dupset data

end Transfers

/-- The bench gets as far as the read-back. -/
structure Reached (n : ℕ) (verifyOnly : Bool) (edges query : Option Reply) : Prop where
  accounts : 2000 ≤ n
  edges : verifyOnly = true ∨ ∃ reply, edges = some reply ∧ reply.Accepted
  query : query.isSome = true

/-- The names of a bench with `n` accounts. -/
def accountNames (n : ℕ) : List String := (List.range n).map acct

/-- The vertex shows the values of an entry. -/
def AccountVertex.Shows (v : AccountVertex) (e : OracleEntry) : Prop :=
  v.got.map (fun got ↦ seen (some got)) = some e

def PropertyValue.IsDecimal (x : PropertyValue) : Prop :=
  ∃ s q, x = .str s ∧ decimalOf s = some q

/-- One of the accounts, with decimal strings. -/
structure AccountVertex.WellFormed (names : List String) (v : AccountVertex) : Prop where
  name : v.name ∈ names
  balance : v.balance.IsDecimal
  hi : v.hi.IsDecimal
  lo : v.lo.IsDecimal

variable {names : List String} {o : Oracle} {dupset : List String}

theorem PropertyValue.IsDecimal.exists_decimal {x : PropertyValue} (h : x.IsDecimal) :
    ∃ q, x.decimal = some q := by
  obtain ⟨s, q, rfl, hq⟩ := h
  exact ⟨q, hq⟩

theorem AccountVertex.WellFormed.exists_got {v : AccountVertex} (h : v.WellFormed names) :
    ∃ got, v.got = some got := by
  obtain ⟨balance, hbalance⟩ := h.balance.exists_decimal
  obtain ⟨hi, hhi⟩ := h.hi.exists_decimal
  obtain ⟨lo, hlo⟩ := h.lo.exists_decimal
  exact ⟨⟨balance, hi, lo⟩, by simp [got, hbalance, hhi, hlo]⟩

instance (v : AccountVertex) (e : OracleEntry) : Decidable (v.Shows e) :=
  inferInstanceAs (Decidable (_ = _))

theorem checkVertex_of_wellFormed {v : AccountVertex} (h : v.WellFormed names) (c : Checked) :
    checkVertex names o dupset c v = some
      { checked := c.checked + 1
        mism := c.mism + if v.Shows (o v.name) then 0 else 1
        mismDup := c.mismDup + if ¬ v.Shows (o v.name) ∧ v.name ∈ dupset then 1 else 0 } := by
  obtain ⟨got, hgot⟩ := h.exists_got
  obtain ⟨s, q, hstr, -⟩ := h.balance
  have hshows : v.Shows (o v.name) ↔ seen (some got) = o v.name := by
    simp [AccountVertex.Shows, hgot]
  by_cases heq : seen (some got) = o v.name
  · simp [checkVertex, h.name, hgot, hstr, hshows, heq]
  · simp [checkVertex, h.name, hgot, hstr, hshows, heq]

/-- The loop over an answer of accounts counts the vertices that do not show what the
oracle has. -/
theorem foldlM_checkVertex {data : List AccountVertex} (h : ∀ v ∈ data, v.WellFormed names)
    (c : Checked) :
    ∃ c', data.foldlM (checkVertex names o dupset) c = some c' ∧
      c'.checked = c.checked + data.length ∧
      c'.mism = c.mism + data.countP fun v ↦ ¬ v.Shows (o v.name) := by
  induction data generalizing c with
  | nil => exact ⟨c, rfl, rfl, rfl⟩
  | cons v data ih =>
      obtain ⟨hv, hdata⟩ := List.forall_mem_cons.mp h
      obtain ⟨c', hrun, hchecked, hmism⟩ := ih hdata
        { checked := c.checked + 1
          mism := c.mism + if v.Shows (o v.name) then 0 else 1
          mismDup := c.mismDup + if ¬ v.Shows (o v.name) ∧ v.name ∈ dupset then 1 else 0 }
      refine ⟨c', ?_, ?_, ?_⟩
      · rw [List.foldlM_cons, checkVertex_of_wellFormed hv]
        exact hrun
      · rw [hchecked, List.length_cons, Nat.add_assoc, Nat.add_comm 1]
      · rw [hmism, List.countP_cons]
        by_cases hshows : v.Shows (o v.name)
        · simp [hshows]
        · simp [hshows]
          omega

variable (o dupset) in
theorem verifyAccounts_eq {data : List AccountVertex} (h : ∀ v ∈ data, v.WellFormed names) :
    ∃ c, verifyAccounts names o dupset data = some c ∧ c.checked = data.length ∧
      c.mism = data.countP fun v ↦ ¬ v.Shows (o v.name) := by
  simpa [verifyAccounts] using foldlM_checkVertex (o := o) h ⟨0, 0, 0⟩

/-! ## The edges -/

section Transfers

variable {G : Type} (gen : Generator G)

theorem isSome_transfer (names : List String) (drawn : List Transfer × G) (i : ℕ) :
    (transfer gen names drawn i).isSome ↔ i < names.length := by
  by_cases hi : i < names.length
  · have hnext : (i + 1) % names.length < names.length := Nat.mod_lt _ (by omega)
    simp [transfer, hnext, hi]
  · simp [transfer, hi]

theorem isSome_foldlM_transfer (names : List String) (drawn : List Transfer × G) (k : ℕ) :
    ((List.range k).foldlM (transfer gen names) drawn).isSome ↔ k ≤ names.length := by
  induction k with
  | zero => simp
  | succ k ih =>
      rw [List.range_succ, List.foldlM_append]
      cases hfirst : (List.range k).foldlM (transfer gen names) drawn with
      | none =>
          rw [hfirst] at ih
          have hk : ¬ k ≤ names.length := fun h ↦ Bool.false_ne_true (ih.mpr h)
          exact iff_of_false Bool.false_ne_true fun h ↦ hk (Nat.le_of_succ_le h)
      | some drawn' =>
          have hlast : [k].foldlM (transfer gen names) drawn' = transfer gen names drawn' k :=
            bind_pure _
          rw [Option.bind_eq_bind, Option.bind_some, hlast]
          exact isSome_transfer gen names drawn' k

/-- There are edges between two thousand accounts and more. -/
theorem isSome_transfers (names : List String) :
    (transfers gen names).isSome ↔ 2000 ≤ names.length := by
  rw [transfers, Option.isSome_map]
  exact isSome_foldlM_transfer gen names _ 2000

variable {n : ℕ} {verifyOnly : Bool} {edges query : Option Reply}

theorem isSome_transfers_accountNames :
    (transfers gen (accountNames n)).isSome ↔ 2000 ≤ n := by
  rw [isSome_transfers, accountNames, List.length_map, List.length_range]

theorem must_eq_some_iff {reply : Reply} : must reply = some () ↔ reply.Accepted := by
  rw [must]
  split
  · exact iff_of_true rfl ‹_›
  · exact iff_of_false (by simp) ‹_›

/-- What the bench compares, once it gets as far. -/
theorem readBack_of_reached (h : Reached n verifyOnly edges query) (data : List AccountVertex) :
    readBack gen (accountNames n) o dupset verifyOnly edges query data =
      verifyAccounts (accountNames n) o dupset data := by
  obtain ⟨ts, hts⟩ := Option.isSome_iff_exists.mp
    ((isSome_transfers_accountNames gen).mpr h.accounts)
  obtain ⟨reply, hquery⟩ := Option.isSome_iff_exists.mp h.query
  rcases h.edges with hverify | ⟨reply', hedges, haccepted⟩
  · simp [readBack, hts, hquery, postEdges, hverify]
  · simp [readBack, hts, hquery, postEdges, hedges, must_eq_some_iff.mpr haccepted]

theorem reached_of_readBack {data : List AccountVertex} {c : Checked}
    (h : readBack gen (accountNames n) o dupset verifyOnly edges query data = some c) :
    Reached n verifyOnly edges query ∧ verifyAccounts (accountNames n) o dupset data = some c := by
  rw [readBack] at h
  simp only [Option.bind_eq_bind, Option.bind_eq_some_iff] at h
  obtain ⟨ts, hts, ⟨⟩, hedges, reply, hquery, hrun⟩ := h
  have haccounts := (isSome_transfers_accountNames gen).mp (Option.isSome_of_eq_some hts)
  refine ⟨⟨haccounts, ?_, Option.isSome_of_eq_some hquery⟩, hrun⟩
  cases verifyOnly with
  | true => exact Or.inl rfl
  | false =>
      obtain ⟨reply, hreply, hmust⟩ := Option.bind_eq_some_iff.mp hedges
      exact Or.inr ⟨reply, hreply, must_eq_some_iff.mp hmust⟩

/-- The bench reports a number of mismatches once it has two thousand accounts, an answer
to each request and the edges accepted.  That there is none means that every account is
right exactly when the bench does not get as far, or no account is missing in the answer,
or there is one that is wrong. -/
theorem no_mismatch_iff (n : ℕ) (o : Oracle) (dupset : List String) (verifyOnly : Bool)
    (edges query : Option Reply) (data : List AccountVertex)
    (hdata : ∀ v ∈ data, v.WellFormed (accountNames n)) :
    (Reached n verifyOnly edges query → ∃ c,
      readBack gen (accountNames n) o dupset verifyOnly edges query data = some c) ∧
    ((∀ c, readBack gen (accountNames n) o dupset verifyOnly edges query data = some c →
        c.mism = 0 → ∀ name ∈ accountNames n, ∃ v ∈ data, v.name = name ∧ v.Shows (o name)) ↔
      ¬ Reached n verifyOnly edges query ∨
        (∀ name ∈ accountNames n, ∃ v ∈ data, v.name = name) ∨
        ∃ v ∈ data, ¬ v.Shows (o v.name)) := by
  obtain ⟨c, hrun, -, hmism⟩ := verifyAccounts_eq o dupset hdata
  refine ⟨fun h ↦ ⟨c, (readBack_of_reached gen h data).trans hrun⟩, ?_⟩
  have hzero : c.mism = 0 ↔ ∀ v ∈ data, v.Shows (o v.name) := by
    rw [hmism, List.countP_eq_zero]
    simp
  constructor
  · intro h
    by_cases hreached : Reached n verifyOnly edges query
    · refine Or.inr ?_
      by_cases hall : ∀ v ∈ data, v.Shows (o v.name)
      · refine Or.inl fun name hname ↦ ?_
        obtain ⟨v, hv, hvname, -⟩ :=
          h c ((readBack_of_reached gen hreached data).trans hrun) (hzero.mpr hall) name hname
        exact ⟨v, hv, hvname⟩
      · push Not at hall
        exact Or.inr hall
    · exact Or.inl hreached
  · intro h c' hread hnone name hname
    obtain ⟨hreached, hrun'⟩ := reached_of_readBack gen hread
    obtain rfl : c = c' := Option.some.inj (hrun.symm.trans hrun')
    have hall := hzero.mp hnone
    rcases h with hnot | hcomplete | ⟨v, hv, hwrong⟩
    · exact absurd hreached hnot
    · obtain ⟨v, hv, rfl⟩ := hcomplete name hname
      exact ⟨v, hv, rfl, hall v hv⟩
    · exact absurd (hall v hv) hwrong

end Transfers

/-- Two thousand accounts with the same values. -/
def allAccounts : List AccountVertex :=
  (accountNames 2000).map fun name ↦ ⟨name, .str "3.5", .str "2.0", .str "1.5"⟩

/-- All accounts are returned, the first one twice. -/
theorem no_mismatch_iff_all_accounts :
    let o : Oracle := fun _ ↦ ⟨7 / 2, some 2, some (3 / 2)⟩
    let data := allAccounts ++ allAccounts.take 1
    ∃ c, readBack counting (accountNames 2000) o [] false (some ⟨201, true⟩) (some ⟨200, true⟩)
        data = some c ∧
      (c.mism = 0 → ∀ name ∈ accountNames 2000, ∃ v ∈ data, v.name = name ∧ v.Shows (o name)) := by
  intro o data
  have hall : ∀ v ∈ allAccounts, v.WellFormed (accountNames 2000) := by
    intro v hv
    obtain ⟨name, hname, rfl⟩ := List.mem_map.mp hv
    exact ⟨hname, ⟨"3.5", 7 / 2, rfl, by decide +kernel⟩, ⟨"2.0", 2, rfl, by decide +kernel⟩,
      ⟨"1.5", 3 / 2, rfl, by decide +kernel⟩⟩
  have hdata : ∀ v ∈ data, v.WellFormed (accountNames 2000) := fun v hv ↦
    (List.mem_append.mp hv).elim (hall v) fun hv ↦ hall v (List.mem_of_mem_take hv)
  obtain ⟨hreport, hiff⟩ := no_mismatch_iff counting 2000 o [] false (some ⟨201, true⟩)
    (some ⟨200, true⟩) data hdata
  obtain ⟨c, hread⟩ := hreport ⟨le_rfl, Or.inr ⟨_, rfl, by decide⟩, rfl⟩
  refine ⟨c, hread, hiff.mpr (Or.inr (Or.inl fun name hname ↦ ?_)) c hread⟩
  exact ⟨_, List.mem_append_left _ (List.mem_map_of_mem hname), rfl⟩

/-- With the default number of accounts, an answer without any has no mismatch. -/
theorem no_mismatch_without_accounts :
    ¬ ∀ (o : Oracle) (dupset : List String) (data : List AccountVertex) (c : Checked),
      (∀ v ∈ data, v.WellFormed (accountNames 10000)) →
      readBack counting (accountNames 10000) o dupset false (some ⟨201, true⟩)
        (some ⟨200, true⟩) data = some c → c.mism = 0 →
      ∀ name ∈ accountNames 10000, ∃ v ∈ data, v.name = name ∧ v.Shows (o name) := by
  intro h
  have hname : acct 0 ∈ accountNames 10000 :=
    List.mem_map_of_mem (List.mem_range.mpr (by omega))
  have hread : readBack counting (accountNames 10000) Oracle.init [] false (some ⟨201, true⟩)
      (some ⟨200, true⟩) [] = some ⟨0, 0, 0⟩ :=
    readBack_of_reached counting ⟨by omega, Or.inr ⟨_, rfl, by decide⟩, rfl⟩ []
  obtain ⟨v, hv, -⟩ := h Oracle.init [] [] ⟨0, 0, 0⟩ (by simp) hread rfl (acct 0) hname
  simp at hv

end HugeGraphValidation.Bench

import Mathlib

/-!
# Walking a chain of pages

A server answers a token with an error, or with a page of items and perhaps the
token of the next page.  A walk follows the tokens from the first one on and may
stop early; the chain of tokens may be endless.
-/

namespace HugeGraphValidation.Lib

variable {τ α ε : Type*}

/-- The requests of a walk, the pages it has counted, and what it returns. -/
structure Walked (τ α ε : Type*) where
  requests : List τ
  pages : ℕ
  result : Except ε (List α)

/-- Ask for `token`; on a page, go on with the next token unless `stop` holds of
the number of pages read. -/
def walk (server : τ → Except ε (List α × Option τ)) (stop : ℕ → Bool) :
    ℕ → List α → τ → ℕ → List τ → Option (Walked τ α ε)
  | 0, _, _, _, _ => none
  | fuel + 1, seen, token, pages, requests =>
      match server token with
      | .error e => some ⟨requests ++ [token], pages, .error e⟩
      | .ok (items, next) =>
          match next with
          | none => some ⟨requests ++ [token], pages + 1, .ok (seen ++ items)⟩
          | some token' =>
              if stop (pages + 1) then
                some ⟨requests ++ [token], pages + 1, .ok (seen ++ items)⟩
              else walk server stop fuel (seen ++ items) token' (pages + 1) (requests ++ [token])

section Chain

variable (server : τ → Except ε (List α × Option τ)) (start : τ)

/-- The token of page `k`, counted from 0, when the chain gets that far. -/
def tokenAt : ℕ → Option τ
  | 0 => some start
  | k + 1 =>
      match tokenAt k with
      | none => none
      | some token =>
          match server token with
          | .error _ => none
          | .ok (_, next) => next

def pageAt (k : ℕ) : List α :=
  match (tokenAt server start k).map server with
  | some (.ok (items, _)) => items
  | _ => []

def firstPages (k : ℕ) : List α := (List.range k).flatMap (pageAt server start)

def EndsAfter (k : ℕ) : Prop :=
  ∃ j token items, k = j + 1 ∧ tokenAt server start j = some token ∧
    server token = .ok (items, none)

/-- The walk has ended on page `n`: the server fails there, or the chain ends,
or it is the last page of `m`. -/
structure EndedOn (m n : ℕ) (w : Walked τ α ε) : Prop where
  lt : n < m
  requests : w.requests.map some = (List.range (n + 1)).map (tokenAt server start)
  outcome : ∃ token, tokenAt server start n = some token ∧
    ((∃ e, server token = .error e ∧ w.result = .error e) ∨
      ∃ items next, server token = .ok (items, next) ∧ (next = none ∨ n + 1 = m) ∧
        w.result = .ok (firstPages server start (n + 1)) ∧ w.pages = n + 1)

variable {server start}

theorem tokenAt_succ_of_ok {k : ℕ} {token : τ} {items : List α} {next : Option τ}
    (htoken : tokenAt server start k = some token) (hpage : server token = .ok (items, next)) :
    tokenAt server start (k + 1) = next := by
  simp [tokenAt, htoken, hpage]

theorem tokenAt_succ_of_error {k : ℕ} {token : τ} {e : ε}
    (htoken : tokenAt server start k = some token) (hpage : server token = .error e) :
    tokenAt server start (k + 1) = none := by
  simp [tokenAt, htoken, hpage]

theorem tokenAt_eq_none_of_le {j k : ℕ} (hle : j ≤ k) (hnone : tokenAt server start j = none) :
    tokenAt server start k = none := by
  induction k, hle using Nat.le_induction with
  | base => exact hnone
  | succ k _ ih => simp [tokenAt, ih]

theorem firstPages_succ {k : ℕ} {token : τ} {items : List α} {next : Option τ}
    (htoken : tokenAt server start k = some token) (hpage : server token = .ok (items, next)) :
    firstPages server start (k + 1) = firstPages server start k ++ items := by
  have hitems : pageAt server start k = items := by simp [pageAt, htoken, hpage]
  rw [firstPages, List.range_succ, List.flatMap_append, List.flatMap_singleton, hitems, firstPages]

/-- From page `k` on the walk ends within the bound, with the same result for
every fuel that allows for the pages left. -/
theorem walk_ends {stop : ℕ → Bool} {m k : ℕ} {token : τ} {requests : List τ}
    (hstop : ∀ i, stop i = true ↔ m ≤ i) (hlt : k < m)
    (htoken : tokenAt server start k = some token)
    (hrequests : requests.map some = (List.range k).map (tokenAt server start)) :
    ∃ n w, EndedOn server start m n w ∧ ∀ fuel, m - k ≤ fuel →
      walk server stop fuel (firstPages server start k) token k requests = some w := by
  induction hd : m - k generalizing k token requests with
  | zero => omega
  | succ d ih =>
      have hrequests' : (requests ++ [token]).map some =
          (List.range (k + 1)).map (tokenAt server start) := by
        rw [List.map_append, List.range_succ, List.map_append, hrequests, List.map_singleton,
          List.map_singleton, htoken]
      have hfuel : ∀ fuel, d + 1 ≤ fuel → ∃ fuel', fuel = fuel' + 1 ∧ d ≤ fuel' :=
        fun fuel hle ↦ ⟨fuel - 1, by omega, by omega⟩
      cases hpage : server token with
      | error e =>
          refine ⟨k, ⟨requests ++ [token], k, .error e⟩,
            ⟨hlt, hrequests', token, htoken, Or.inl ⟨e, hpage, rfl⟩⟩, ?_⟩
          intro fuel hle
          obtain ⟨fuel, rfl, -⟩ := hfuel fuel hle
          simp [walk, hpage]
      | ok page =>
          obtain ⟨items, next⟩ := page
          have hpages := firstPages_succ htoken hpage
          by_cases hend : next = none ∨ k + 1 = m
          · refine ⟨k, ⟨requests ++ [token], k + 1, .ok (firstPages server start (k + 1))⟩,
              ⟨hlt, hrequests', token, htoken, Or.inr ⟨items, next, hpage, hend, rfl, rfl⟩⟩, ?_⟩
            intro fuel hle
            obtain ⟨fuel, rfl, -⟩ := hfuel fuel hle
            rcases hend with rfl | hlast
            · simp [walk, hpage, hpages]
            · have hstops : stop (k + 1) = true := (hstop _).mpr (by omega)
              cases next with
              | none => simp [walk, hpage, hpages]
              | some token' => simp [walk, hpage, hpages, hstops]
          · rw [not_or] at hend
            obtain ⟨token', rfl⟩ := Option.ne_none_iff_exists'.mp hend.1
            have hgo : stop (k + 1) = false := by
              rw [← Bool.not_eq_true, hstop]
              omega
            obtain ⟨n, w, hended, hrun⟩ := ih (by omega : k + 1 < m)
              (tokenAt_succ_of_ok htoken hpage) hrequests' (by omega)
            refine ⟨n, w, hended, ?_⟩
            intro fuel hle
            obtain ⟨fuel, rfl, hle'⟩ := hfuel fuel hle
            rw [← hrun fuel hle', hpages]
            simp [walk, hpage, hgo]

theorem walk_start_ends {stop : ℕ → Bool} {m : ℕ} (hstop : ∀ i, stop i = true ↔ m ≤ i)
    (hm : 1 ≤ m) :
    ∃ n w, EndedOn server start m n w ∧ ∀ fuel, m ≤ fuel →
      walk server stop fuel [] start 0 [] = some w :=
  walk_ends hstop hm rfl rfl

namespace EndedOn

variable {m n : ℕ} {w : Walked τ α ε}

theorem length_requests (h : EndedOn server start m n w) : w.requests.length = n + 1 := by
  simpa using congrArg List.length h.requests

theorem getElem?_requests (h : EndedOn server start m n w) {k : ℕ} (hk : k ≤ n) :
    w.requests[k]? = tokenAt server start k := by
  have hget := congrArg (·[k]?) h.requests
  simp only [List.getElem?_map, List.getElem?_range (Nat.lt_succ_of_le hk), Option.map_some] at hget
  cases hrequest : w.requests[k]? with
  | none => simp [hrequest] at hget
  | some token => simpa [hrequest] using hget

theorem le_of_tokenAt (h : EndedOn server start m n w) {j : ℕ} {token : τ} (hj : j < m)
    (htoken : tokenAt server start j = some token) : j ≤ n := by
  by_contra hlt
  obtain ⟨token', htoken', houtcome⟩ := h.outcome
  have hnone : tokenAt server start (n + 1) = none := by
    rcases houtcome with ⟨e, hpage, -⟩ | ⟨items, next, hpage, hend, -⟩
    · exact tokenAt_succ_of_error htoken' hpage
    · rw [tokenAt_succ_of_ok htoken' hpage]
      exact hend.resolve_right (by omega)
  rw [tokenAt_eq_none_of_le (by omega) hnone] at htoken
  cases htoken

theorem eq_of_tokenAt_succ (h : EndedOn server start m n w) {j : ℕ} {token : τ} (hj : j < m)
    (htoken : tokenAt server start j = some token)
    (hnone : tokenAt server start (j + 1) = none) : n = j := by
  have hle := h.le_of_tokenAt hj htoken
  by_contra hne
  obtain ⟨token', htoken', -⟩ := h.outcome
  rw [tokenAt_eq_none_of_le (by omega) hnone] at htoken'
  cases htoken'

theorem of_error (h : EndedOn server start m n w) {j : ℕ} {token : τ} {e : ε} (hj : j < m)
    (htoken : tokenAt server start j = some token) (hpage : server token = .error e) :
    w.result = .error e ∧ w.requests.length = j + 1 := by
  obtain rfl := h.eq_of_tokenAt_succ hj htoken (tokenAt_succ_of_error htoken hpage)
  refine ⟨?_, h.length_requests⟩
  obtain ⟨token', htoken', houtcome⟩ := h.outcome
  obtain rfl := Option.some.inj (htoken'.symm.trans htoken)
  rcases houtcome with ⟨e', hpage', hresult⟩ | ⟨items, next, hpage', -⟩
  · rw [hpage] at hpage'
    rw [hresult, Except.error.inj hpage']
  · rw [hpage] at hpage'
    cases hpage'

theorem of_endsAfter (h : EndedOn server start m n w) {k : ℕ} (hk : k ≤ m)
    (hends : EndsAfter server start k) :
    w.result = .ok (firstPages server start k) ∧ w.pages = k := by
  obtain ⟨j, token, items, rfl, htoken, hpage⟩ := hends
  obtain rfl := h.eq_of_tokenAt_succ (by omega) htoken (tokenAt_succ_of_ok htoken hpage)
  obtain ⟨token', htoken', houtcome⟩ := h.outcome
  obtain rfl := Option.some.inj (htoken'.symm.trans htoken)
  rcases houtcome with ⟨e, hpage', -⟩ | ⟨items', next, -, -, hresult⟩
  · rw [hpage] at hpage'
    cases hpage'
  · exact hresult

end EndedOn

/-- The walk returns items although the last page it read has a next token. -/
def CutOff (server : τ → Except ε (List α × Option τ)) (w : Walked τ α ε) : Prop :=
  (∃ items, w.result = .ok items) ∧
    ∃ token items next, w.requests.getLast? = some token ∧
      server token = .ok (items, some next)

/-- A walk is cut off exactly when the chain goes on behind the bound. -/
theorem EndedOn.cutOff_iff {m n : ℕ} {w : Walked τ α ε} (h : EndedOn server start m n w) :
    CutOff server w ↔ tokenAt server start m ≠ none := by
  obtain ⟨token, htoken, houtcome⟩ := h.outcome
  have hlast : w.requests.getLast? = some token := by
    rw [List.getLast?_eq_getElem?, h.length_requests, Nat.add_sub_cancel,
      h.getElem?_requests le_rfl, htoken]
  rcases houtcome with ⟨e, hpage, hresult⟩ | ⟨items, next, hpage, hend, hresult, -⟩
  · have hnone : tokenAt server start m = none :=
      tokenAt_eq_none_of_le h.lt (tokenAt_succ_of_error htoken hpage)
    refine iff_of_false ?_ (not_not.mpr hnone)
    rintro ⟨⟨items, hok⟩, -⟩
    rw [hresult] at hok
    cases hok
  · have hnext := tokenAt_succ_of_ok htoken hpage
    constructor
    · rintro ⟨-, token', items', next', hlast', hpage'⟩
      obtain rfl := Option.some.inj (hlast.symm.trans hlast')
      rw [hpage] at hpage'
      obtain ⟨-, rfl⟩ := Prod.mk.inj (Except.ok.inj hpage')
      have hm : n + 1 = m := hend.resolve_left (by simp)
      rw [← hm, hnext]
      simp
    · intro hgoes
      cases next with
      | none => exact absurd (tokenAt_eq_none_of_le h.lt hnext) hgoes
      | some next => exact ⟨⟨_, hresult⟩, token, items, next, hlast, hpage⟩

/-- Where the chain is known, page by page, so is the walk: it reads the first `m`
pages, or all of them. -/
theorem walk_of_chain {stop : ℕ → Bool} {m count : ℕ} (hstop : ∀ i, stop i = true ↔ m ≤ i)
    (hm : 1 ≤ m) (hcount : 1 ≤ count) {tokens : ℕ → τ} {items : ℕ → List α}
    (hstart : tokens 0 = start)
    (hchain : ∀ k < count,
      server (tokens k) = .ok (items k, if k + 1 < count then some (tokens (k + 1)) else none)) :
    ∃ w, (∀ fuel, m ≤ fuel → walk server stop fuel [] start 0 [] = some w) ∧
      w.result = .ok ((List.range (min m count)).flatMap items) ∧ w.pages = min m count := by
  have htoken : ∀ k < count, tokenAt server start k = some (tokens k) := by
    intro k hk
    induction k with
    | zero => rw [hstart]; rfl
    | succ k ih =>
        rw [tokenAt_succ_of_ok (ih (by omega)) (hchain k (by omega)), if_pos hk]
  have hend : tokenAt server start count = none := by
    obtain ⟨last, rfl⟩ : ∃ last, count = last + 1 := ⟨count - 1, by omega⟩
    rw [tokenAt_succ_of_ok (htoken last (by omega)) (hchain last (by omega)), if_neg (by omega)]
  have hpages : ∀ n ≤ count, firstPages server start n = (List.range n).flatMap items := by
    intro n hn
    rw [firstPages, List.flatMap_def, List.flatMap_def]
    congr 1
    apply List.map_congr_left
    intro k hk
    have hk' : k < count := (List.mem_range.mp hk).trans_le hn
    simp [pageAt, htoken k hk', hchain k hk']
  obtain ⟨n, w, hended, hrun⟩ : ∃ n w, EndedOn server start m n w ∧ ∀ fuel, m ≤ fuel →
      walk server stop fuel [] start 0 [] = some w := walk_start_ends hstop hm
  refine ⟨w, hrun, ?_⟩
  obtain ⟨token, hn, houtcome⟩ := hended.outcome
  have hlt : n < count := by
    by_contra hle
    rw [tokenAt_eq_none_of_le (Nat.le_of_not_lt hle) hend] at hn
    cases hn
  obtain rfl := Option.some.inj ((htoken n hlt).symm.trans hn)
  rcases houtcome with ⟨e, hpage, -⟩ | ⟨page, next, hpage, hlast, hresult, hcounted⟩
  · rw [hchain n hlt] at hpage
    cases hpage
  · have hmin : min m count = n + 1 := by
      rw [hchain n hlt] at hpage
      obtain ⟨-, rfl⟩ := Prod.mk.inj (Except.ok.inj hpage)
      have hm' := hended.lt
      rcases hlast with hnone | hlast
      · have hge : ¬ n + 1 < count := by
          intro h
          rw [if_pos h] at hnone
          cases hnone
        omega
      · omega
    rw [hmin, ← hpages (n + 1) hlt]
    exact ⟨hresult, hcounted⟩

end Chain

end HugeGraphValidation.Lib

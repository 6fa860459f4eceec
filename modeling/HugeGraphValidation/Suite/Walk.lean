import HugeGraphValidation.Lib.Cursor
import HugeGraphValidation.Lib.Text
import HugeGraphValidation.Suite.Record

/-!
# The page walkers

`HG.paged` walks the page cursor of the REST API and `page_all` that of Gremlin.
Both ask for one page after the other, with the token of the page before, and
bound the number of pages each in its own way.  What they return is stated about
the pages that the replies of the server stand for.
-/

namespace HugeGraphValidation.Suite

open Lib

/-- A decoded answer: the status, `"exception" in d`, `d.get("message")`,
`str(d)`, and what the caller reads of it. -/
structure Reply (α : Type*) where
  status : ℕ
  exception : Bool
  message : Option String
  text : String
  payload : α

def Reply.bad {α : Type*} (d : Reply α) : Bool :=
  decide (400 ≤ d.status) || decide (d.status = 0) || d.exception

/-- `(d.get("message") or str(d))[:110]` -/
def Reply.err {α : Type*} (d : Reply α) : String :=
  clip 110 ((d.message.filter fun m ↦ m ≠ "").getD d.text)

abbrev PageAnswer := Except String (List Id × Option String)

/-- `ids_rest`, given the answer of the request. -/
def idsRest (d : Reply (List Id × Option String)) : PageAnswer :=
  if d.bad then .error d.err else .ok d.payload

/-- `d["result"]["data"]` of the paging script: the ids and the token, or
another list. -/
inductive PageData where
  | page (r : Option (List Id)) (p : Option String)
  | other (text : String)

/-- The body of `page_all`'s loop up to the ids and the token. -/
def gremlinPage (d : Reply PageData) : PageAnswer :=
  if d.bad then .error d.err
  else
    match d.payload with
    | .other text => .error s!"unexpected page result {clip 120 text}"
    | .page r p => .ok (r.getD [], p)

/-- The empty token ends the walk like a missing one. -/
def nextPage (answer : PageAnswer) : PageAnswer :=
  answer.map fun p ↦ (p.1, p.2.filter fun token ↦ token ≠ "")

/-- `HG.paged`; `get` is the answer to the request with a token. -/
def paged (get : String → Reply (List Id × Option String)) (maxPages fuel : ℕ) :
    Option (Walked String Id String) :=
  walk (fun token ↦ nextPage (idsRest (get token))) (fun pages ↦ decide (maxPages < pages)) fuel
    [] "" 0 []

def pageAll (gremlin : String → Reply PageData) (maxPages fuel : ℕ) :
    Option (Walked String Id String) :=
  walk (fun token ↦ nextPage (gremlinPage (gremlin token)))
    (fun pages ↦ decide (maxPages ≤ pages)) fuel [] "" 0 []

/-! ## The replies of a server -/

/-- The reply is an error: its first 110 characters are those of the message, or of the
whole body where the message is missing or empty. -/
structure Reply.Fails {α : Type*} (d : Reply α) (e : String) : Prop where
  bad : 400 ≤ d.status ∨ d.status = 0 ∨ d.exception = true
  text : ∃ text, e.toList = text.toList.take 110 ∧
    (d.message = some text ∧ text ≠ "" ∨ (d.message = none ∨ d.message = some "") ∧ text = d.text)

structure Reply.Fine {α : Type*} (d : Reply α) : Prop where
  answered : d.status ≠ 0
  status : d.status < 400
  noException : d.exception = false

/-- The next token that a field stands for: an empty one is none. -/
inductive TokenOf : Option String → Option String → Prop where
  | missing : TokenOf none none
  | empty : TokenOf (some "") none
  | given (token : String) (h : token ≠ "") : TokenOf (some token) (some token)

/-- What a reply of the REST API stands for. -/
inductive RestPage (d : Reply (List Id × Option String)) : PageAnswer → Prop where
  | error (e : String) (h : d.Fails e) : RestPage d (.error e)
  | page (ids : List Id) (next : Option String) (h : d.Fine) (hids : d.payload.1 = ids)
      (hnext : TokenOf d.payload.2 next) : RestPage d (.ok (ids, next))

/-- What a reply to the paging script stands for. -/
inductive GremlinPage (d : Reply PageData) : PageAnswer → Prop where
  | error (e : String) (h : d.Fails e) : GremlinPage d (.error e)
  | unexpected (text e : String) (h : d.Fine) (hdata : d.payload = .other text)
      (he : e.toList = "unexpected page result ".toList ++ text.toList.take 120) :
      GremlinPage d (.error e)
  | page (ids : List Id) (token next : Option String) (h : d.Fine)
      (hdata : d.payload = .page (some ids) token) (hnext : TokenOf token next) :
      GremlinPage d (.ok (ids, next))
  | noIds (token next : Option String) (h : d.Fine) (hdata : d.payload = .page none token)
      (hnext : TokenOf token next) : GremlinPage d (.ok ([], next))

section Replies

variable {α : Type*} {d : Reply α}

theorem filter_ne_empty {t : String} (h : t ≠ "") :
    (some t).filter (fun t ↦ t ≠ "") = some t := by
  simp [Option.filter, h]

theorem Reply.Fails.err_eq {e : String} (h : d.Fails e) : d.bad = true ∧ d.err = e := by
  obtain ⟨hbad, text, he, htext⟩ := h
  have htext' : (d.message.filter fun m ↦ m ≠ "").getD d.text = text := by
    rcases htext with ⟨hmessage, hne⟩ | ⟨hmessage | hmessage, rfl⟩
    · rw [hmessage, filter_ne_empty hne, Option.getD_some]
    · rw [hmessage]
      rfl
    · rw [hmessage]
      rfl
  refine ⟨by simpa [Reply.bad, or_assoc] using hbad, ?_⟩
  rw [Reply.err, htext', clip, ← he, String.ofList_toList]

theorem Reply.Fine.bad_eq (h : d.Fine) : d.bad = false := by
  simpa [Reply.bad, h.answered, h.noException] using h.status

theorem Reply.fails_of_bad (h : d.bad = true) : d.Fails d.err where
  bad := by simpa [Reply.bad, or_assoc] using h
  text := by
    refine ⟨(d.message.filter fun m ↦ m ≠ "").getD d.text, String.toList_ofList, ?_⟩
    cases hmessage : d.message with
    | none => exact Or.inr ⟨Or.inl rfl, rfl⟩
    | some m =>
        rcases eq_or_ne m "" with rfl | hne
        · exact Or.inr ⟨Or.inr rfl, rfl⟩
        · rw [filter_ne_empty hne]
          exact Or.inl ⟨rfl, hne⟩

theorem Reply.fine_of_ok (h : d.status = 200) (hexception : d.exception = false) : d.Fine :=
  ⟨by omega, by omega, hexception⟩

theorem Reply.fine_of_not_bad (h : d.bad = false) : d.Fine := by
  simp only [Reply.bad, Bool.or_eq_false_iff, decide_eq_false_iff_not] at h
  exact ⟨h.1.2, not_le.mp h.1.1, h.2⟩

theorem tokenOf_iff {token next : Option String} :
    TokenOf token next ↔ (token.filter fun t ↦ t ≠ "") = next := by
  constructor
  · rintro (_ | _ | ⟨token, h⟩)
    · rfl
    · rfl
    · exact filter_ne_empty h
  · rintro rfl
    cases token with
    | none => exact .missing
    | some token =>
        rcases eq_or_ne token "" with rfl | hne
        · exact .empty
        · rw [filter_ne_empty hne]
          exact .given token hne

theorem toList_unexpected (text : String) :
    (s!"unexpected page result {clip 120 text}").toList =
      "unexpected page result ".toList ++ text.toList.take 120 :=
  (String.toList_append ..).trans (congrArg _ String.toList_ofList)

end Replies

/-- A reply stands for one answer, and `HG.paged` reads that one. -/
theorem restPage_iff {d : Reply (List Id × Option String)} {answer : PageAnswer} :
    RestPage d answer ↔ nextPage (idsRest d) = answer := by
  constructor
  · rintro (⟨e, h⟩ | ⟨ids, next, h, rfl, hnext⟩)
    · obtain ⟨hbad, rfl⟩ := h.err_eq
      rw [idsRest, if_pos hbad]
      rfl
    · rw [idsRest, h.bad_eq, ← tokenOf_iff.mp hnext]
      rfl
  · rintro rfl
    cases hbad : d.bad with
    | true =>
        rw [idsRest, if_pos hbad]
        exact .error _ (Reply.fails_of_bad hbad)
    | false =>
        rw [idsRest, hbad]
        exact .page _ _ (Reply.fine_of_not_bad hbad) rfl (tokenOf_iff.mpr rfl)

/-- A reply stands for one answer, and `page_all` reads that one. -/
theorem gremlinPage_iff {d : Reply PageData} {answer : PageAnswer} :
    GremlinPage d answer ↔ nextPage (gremlinPage d) = answer := by
  constructor
  · rintro (⟨e, h⟩ | ⟨text, e, h, hdata, he⟩ | ⟨ids, token, next, h, hdata, hnext⟩ |
      ⟨token, next, h, hdata, hnext⟩)
    · obtain ⟨hbad, rfl⟩ := h.err_eq
      rw [gremlinPage, if_pos hbad]
      rfl
    · have htext : s!"unexpected page result {clip 120 text}" = e := by
        rw [← String.toList_inj, he, toList_unexpected]
      rw [gremlinPage, h.bad_eq, hdata, ← htext]
      rfl
    · rw [gremlinPage, h.bad_eq, hdata, ← tokenOf_iff.mp hnext]
      rfl
    · rw [gremlinPage, h.bad_eq, hdata, ← tokenOf_iff.mp hnext]
      rfl
  · rintro rfl
    cases hbad : d.bad with
    | true =>
        rw [gremlinPage, if_pos hbad]
        exact .error _ (Reply.fails_of_bad hbad)
    | false =>
        have hfine := Reply.fine_of_not_bad hbad
        rw [gremlinPage, hbad]
        cases hdata : d.payload with
        | other text => exact .unexpected text _ hfine hdata (toList_unexpected text)
        | page r p =>
            cases r with
            | none => exact .noIds p _ hfine hdata (tokenOf_iff.mpr rfl)
            | some ids => exact .page ids p _ hfine hdata (tokenOf_iff.mpr rfl)

section Walkers

variable (get : String → Reply (List Id × Option String)) (gremlin : String → Reply PageData)
  {maxPages : ℕ}

theorem paged_ends (maxPages : ℕ) :
    ∃ n w, EndedOn (fun token ↦ nextPage (idsRest (get token))) "" (maxPages + 1) n w ∧
      ∀ fuel, maxPages + 1 ≤ fuel → paged get maxPages fuel = some w :=
  walk_start_ends (fun _ ↦ decide_eq_true_iff.trans Nat.lt_iff_add_one_le)
    (Nat.succ_pos maxPages)

theorem pageAll_ends (hmax : 1 ≤ maxPages) :
    ∃ n w, EndedOn (fun token ↦ nextPage (gremlinPage (gremlin token))) "" maxPages n w ∧
      ∀ fuel, maxPages ≤ fuel → pageAll gremlin maxPages fuel = some w :=
  walk_start_ends (fun _ ↦ decide_eq_true_iff) hmax

end Walkers

/-- A walk over at most `m` pages of a server: it asks for the tokens of the
chain one after the other, the first page that fails decides it, and a chain
that ends in time is returned whole. -/
structure Follows (server : String → PageAnswer) (m : ℕ) (w : Walked String Id String) : Prop where
  first : w.requests[0]? = some ""
  tokens : w.requests.map some = (List.range w.requests.length).map (tokenAt server "")
  bounded : w.requests.length ≤ m
  failed : ∀ j < m, ∀ token e, tokenAt server "" j = some token → server token = .error e →
    w.result = .error e ∧ w.requests.length = j + 1
  complete : ∀ k ≤ m, EndsAfter server "" k →
    w.result = .ok (firstPages server "" k) ∧ w.pages = k

theorem follows_of_endedOn {server : String → PageAnswer} {m n : ℕ}
    {w : Walked String Id String} (h : EndedOn server "" m n w) : Follows server m w where
  first := h.getElem?_requests (Nat.zero_le n)
  tokens := by
    rw [h.length_requests]
    exact h.requests
  bounded := by
    rw [h.length_requests]
    exact h.lt
  failed := fun _ hj _ _ htoken hpage ↦ h.of_error hj htoken hpage
  complete := fun _ hk hends ↦ h.of_endsAfter hk hends

/-- Both walkers end on every server and follow its chain of tokens, and on a
chain that ends within `max_pages` they return the same list. -/
theorem walkers_follow (server server' : String → PageAnswer)
    (get : String → Reply (List Id × Option String)) (gremlin : String → Reply PageData)
    (hget : ∀ token, RestPage (get token) (server token))
    (hgremlin : ∀ token, GremlinPage (gremlin token) (server' token))
    (maxPages : ℕ) (hmax : 1 ≤ maxPages) :
    ∃ w w', (∀ fuel, maxPages + 1 ≤ fuel → paged get maxPages fuel = some w) ∧
      (∀ fuel, maxPages ≤ fuel → pageAll gremlin maxPages fuel = some w') ∧
      Follows server (maxPages + 1) w ∧ Follows server' maxPages w' ∧
      (server' = server → ∀ k ≤ maxPages, EndsAfter server "" k →
        w.result = .ok (firstPages server "" k) ∧ w'.result = w.result ∧ w'.pages = k) := by
  obtain ⟨n, w, hended, hrun⟩ := paged_ends get maxPages
  obtain ⟨n', w', hended', hrun'⟩ := pageAll_ends gremlin hmax
  rw [funext fun token ↦ restPage_iff.mp (hget token)] at hended
  rw [funext fun token ↦ gremlinPage_iff.mp (hgremlin token)] at hended'
  refine ⟨w, w', hrun, hrun', follows_of_endedOn hended, follows_of_endedOn hended', ?_⟩
  rintro rfl k hk hends
  obtain ⟨hresult, -⟩ := hended.of_endsAfter (by omega) hends
  obtain ⟨hresult', hpages⟩ := hended'.of_endsAfter hk hends
  exact ⟨hresult, hresult'.trans hresult.symm, hpages⟩

/-- A server of two pages. -/
def twoPages (token : String) : PageAnswer :=
  if token = "" then .ok ([.str "a"], some "t1") else .ok ([.str "b"], none)

/-- The same without its second page. -/
def brokenPage (token : String) : PageAnswer :=
  if token = "" then .ok ([.str "a"], some "t1") else .error "boom"

def twoPagesRest (token : String) : Reply (List Id × Option String) :=
  ⟨200, false, none, "", if token = "" then ([.str "a"], some "t1") else ([.str "b"], some "")⟩

def twoPagesGremlin (token : String) : Reply PageData :=
  ⟨200, false, none, "",
    if token = "" then .page (some [.str "a"]) (some "t1") else .page (some [.str "b"]) none⟩

def brokenPageGremlin (token : String) : Reply PageData :=
  if token = "" then twoPagesGremlin "" else ⟨500, false, some "boom", "{}", .other "[]"⟩

theorem walkers_follow_two_pages :
    (∃ w w', paged twoPagesRest 2 3 = some w ∧ pageAll twoPagesGremlin 2 2 = some w' ∧
      w.result = .ok [.str "a", .str "b"] ∧ w'.result = w.result ∧ w'.pages = 2) ∧
    ∃ w', pageAll brokenPageGremlin 2 2 = some w' ∧ w'.result = .error "boom" ∧
      w'.requests.length = 2 := by
  have hget : ∀ token, RestPage (twoPagesRest token) (twoPages token) := by
    intro token
    have hfine : (twoPagesRest token).Fine := Reply.fine_of_ok rfl rfl
    by_cases hfirst : token = ""
    · subst hfirst
      exact .page _ _ hfine rfl (.given "t1" (by decide))
    · rw [twoPages, if_neg hfirst]
      refine .page _ _ hfine ?_ ?_
      · rw [twoPagesRest, if_neg hfirst]
      · rw [twoPagesRest, if_neg hfirst]
        exact .empty
  have hgremlin : ∀ token, GremlinPage (twoPagesGremlin token) (twoPages token) := by
    intro token
    have hfine : (twoPagesGremlin token).Fine := Reply.fine_of_ok rfl rfl
    by_cases hfirst : token = ""
    · subst hfirst
      exact .page _ _ _ hfine rfl (.given "t1" (by decide))
    · rw [twoPages, if_neg hfirst]
      refine .page _ none _ hfine ?_ .missing
      rw [twoPagesGremlin, if_neg hfirst]
  have hbroken : ∀ token, GremlinPage (brokenPageGremlin token) (brokenPage token) := by
    intro token
    by_cases hfirst : token = ""
    · subst hfirst
      exact hgremlin ""
    · rw [brokenPageGremlin, if_neg hfirst, brokenPage, if_neg hfirst]
      exact .error _ ⟨Or.inl (by decide), "boom", rfl, Or.inl ⟨rfl, by decide⟩⟩
  obtain ⟨w, w', hrun, hrun', -, -, hcomplete⟩ := walkers_follow twoPages twoPages twoPagesRest
    twoPagesGremlin hget hgremlin 2 (by omega)
  obtain ⟨-, v, -, hbrokenRun, -, hfollows, -⟩ := walkers_follow twoPages brokenPage twoPagesRest
    brokenPageGremlin hget hbroken 2 (by omega)
  have hends : EndsAfter twoPages "" 2 := ⟨1, "t1", [.str "b"], rfl, by decide, by decide⟩
  obtain ⟨hresult, hsame, hpages⟩ := hcomplete rfl 2 le_rfl hends
  obtain ⟨herror, hlength⟩ := hfollows.failed 1 (by omega) "t1" "boom" (by decide) (by decide)
  exact ⟨⟨w, w', hrun 3 le_rfl, hrun' 2 le_rfl, hresult.trans rfl, hsame, hpages⟩, v,
    hbrokenRun 2 le_rfl, herror, hlength⟩

/-- A walk is reported as complete although it was cut off exactly when the
chain goes on behind page `max_pages + 1` (`HG.paged`), or behind page
`max_pages` (`page_all`). -/
theorem walkers_cutOff_iff (get : String → Reply (List Id × Option String))
    (gremlin : String → Reply PageData) (maxPages : ℕ) (hmax : 1 ≤ maxPages) :
    ∃ w w', (∀ fuel, maxPages + 1 ≤ fuel → paged get maxPages fuel = some w) ∧
      (∀ fuel, maxPages ≤ fuel → pageAll gremlin maxPages fuel = some w') ∧
      (¬ CutOff (fun token ↦ nextPage (idsRest (get token))) w ↔
        tokenAt (fun token ↦ nextPage (idsRest (get token))) "" (maxPages + 1) = none) ∧
      (¬ CutOff (fun token ↦ nextPage (gremlinPage (gremlin token))) w' ↔
        tokenAt (fun token ↦ nextPage (gremlinPage (gremlin token))) "" maxPages = none) := by
  obtain ⟨n, w, hended, hrun⟩ := paged_ends get maxPages
  obtain ⟨n', w', hended', hrun'⟩ := pageAll_ends gremlin hmax
  exact ⟨w, w', hrun, hrun', by rw [hended.cutOff_iff, not_not],
    by rw [hended'.cutOff_iff, not_not]⟩

def endlessRest (_ : String) : Reply (List Id × Option String) :=
  ⟨200, false, none, "", ([.str "a"], some "t")⟩

def endlessGremlin (_ : String) : Reply PageData :=
  ⟨200, false, none, "", .page (some [.str "a"]) (some "t")⟩

theorem walkers_cutOff_iff_endless :
    ∃ w w', paged endlessRest 1 2 = some w ∧ pageAll endlessGremlin 1 1 = some w' ∧
      CutOff (fun token ↦ nextPage (idsRest (endlessRest token))) w ∧
      CutOff (fun token ↦ nextPage (gremlinPage (endlessGremlin token))) w' := by
  obtain ⟨w, w', hrun, hrun', hiff, hiff'⟩ :=
    walkers_cutOff_iff endlessRest endlessGremlin 1 le_rfl
  refine ⟨w, w', hrun 2 le_rfl, hrun' 1 le_rfl, ?_, ?_⟩
  · by_contra hcut
    exact absurd (hiff.mp hcut) (by decide)
  · by_contra hcut
    exact absurd (hiff'.mp hcut) (by decide)

/-- Two pages of an endless chain are returned by `HG.paged` with the bound 1,
one page by `page_all`, both without an error. -/
theorem walkers_cut_off :
    ∃ w w', paged endlessRest 1 2 = some w ∧ w.result = .ok [.str "a", .str "a"] ∧
      CutOff (fun token ↦ nextPage (idsRest (endlessRest token))) w ∧
      pageAll endlessGremlin 1 1 = some w' ∧ w'.result = .ok [.str "a"] ∧
      CutOff (fun token ↦ nextPage (gremlinPage (endlessGremlin token))) w' := by
  refine ⟨⟨["", "t"], 2, .ok [.str "a", .str "a"]⟩, ⟨[""], 1, .ok [.str "a"]⟩, rfl, rfl,
    ⟨⟨_, rfl⟩, "t", [.str "a"], "t", rfl, rfl⟩, rfl, rfl, ⟨⟨_, rfl⟩, "", [.str "a"], "t", rfl, rfl⟩⟩

end HugeGraphValidation.Suite

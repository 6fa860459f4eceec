import HugeGraphValidation.Faults.Battery
import HugeGraphValidation.Lib.Dict
import HugeGraphValidation.Lib.Keyed
import HugeGraphValidation.Lib.Numerals
import HugeGraphValidation.Lib.Runs
import HugeGraphValidation.Lib.Scan

/-!
# The sizes on disk

Every node writes a file with the sizes of its directories and with the key counts
and sizes of its tables, as text.  The summary reads the numbers back out of the
texts with regular expressions and adds them up over the nodes.
-/

namespace HugeGraphValidation.Bench

open Lib Faults

/-! ## The file of a node -/

/-- The doubles, with what the script does with them. -/
structure Doubles (F : Type) where
  float : String → Option F
  ofRat : ℚ → F
  add : F → F → F
  mul : F → F → F
  /-- The number that `%.0f` prints. -/
  rounded : F → ℕ

structure TableMetric where
  tableName : String
  keyCount : ℕ
  dataSize : String

structure PartitionMetric where
  tables : List TableMetric

structure PartitionGroup where
  partitions : List PartitionMetric

/-- `s.split()` -/
def words (s : String) : List String :=
  ((s.toList.splitOnP isSpace).filter fun w ↦ w ≠ []).map String.ofList

def unitMB : String → Option ℚ
  | "bytes" => some (1 / 2 ^ 20)
  | "KB" => some (1 / 1024)
  | "MB" => some 1
  | "GB" => some 1024
  | _ => none

structure TableCounts (F : Type) where
  keys : List (String × ℕ)
  size : List (String × F)
  n : ℕ
  deriving DecidableEq

section Node

variable {F : Type} (fp : Doubles F)

/-- `mb(s)` -/
def mb (s : String) : Option F :=
  match words s with
  | [v, u] => do
      let v ← fp.float v
      let u ← unitMB u
      some (fp.mul v (fp.ofRat u))
  | _ => none

def countTable (c : TableCounts F) (t : TableMetric) : Option (TableCounts F) := do
  let size ← mb fp t.dataSize
  some { c with
    keys := Dict.addTo 0 (· + ·) t.tableName t.keyCount c.keys
    size := Dict.addTo (fp.ofRat 0) fp.add t.tableName size c.size }

def countPartition (c : TableCounts F) (p : PartitionMetric) : Option (TableCounts F) :=
  p.tables.foldlM (countTable fp) { c with n := c.n + 1 }

def countTables (groups : List PartitionGroup) : Option (TableCounts F) :=
  groups.foldlM (fun c grp ↦ grp.partitions.foldlM (countPartition fp) c) ⟨[], [], 0⟩

/-- `"%s:keys=%d,MB=%.0f"` -/
def tableText (c : TableCounts F) (t : String) : String :=
  s!"{t}:keys={(c.keys.lookup t).getD 0},MB={fp.rounded ((c.size.lookup t).getD (fp.ofRat 0))}"

/-- What the script prints of the partitions. -/
def tablesText (c : TableCounts F) : String :=
  s!"tables partitions={c.n} " ++
    " ".intercalate (((Dict.keys c.keys).insertionSort (· ≤ ·)).map (tableText fp c))

end Node

/-- `tail -1` of a text that ends with a line break. -/
def lastLine (txt : String) : String :=
  String.ofList ((txt.toList.splitOn '\n').getLast?.getD [])

structure NodeSizes where
  compacted : Option (ℕ × ℕ × ℕ)
  hostname : String
  dbMB : ℕ
  raftlogMB : ℕ
  snapshotMB : ℕ
  sst : ℕ
  parts : ℕ
  /-- in hundredths of a gigabyte -/
  ingest : ℕ
  keys : ℕ

def NodeSizes.compactedText (s : NodeSizes) : String :=
  match s.compacted with
  | none => ""
  | some (n, parts, seconds) => s!"compacted={n}/{parts} in {seconds} s\n"

def NodeSizes.text (s : NodeSizes) : String :=
  s!"{s.hostname}: db_MB={s.dbMB} raftlog_MB={s.raftlogMB} snapshot_MB={s.snapshotMB} " ++
    s!"sst={s.sst} parts={s.parts} " ++
    s!"ingest_GB={s.ingest / 100}.{zeroPadded 2 (s.ingest % 100)} keys={s.keys}\n"

/-- The file of a node whose store answers with its partitions. -/
def diskText {F : Type} (fp : Doubles F) (s : NodeSizes) (groups : List PartitionGroup) :
    Option String :=
  (countTables fp groups).map fun c ↦
    s.compactedText ++ s.text ++ lastLine (tablesText fp c) ++ "\n"

/-! ## The summary -/

section Patterns

/-- `\w`; `letter` tells the letters and digits outside ASCII. -/
def isWord (letter : Char → Bool) (c : Char) : Bool :=
  c.isAlphanum || c = '_' || (128 ≤ c.toNat && letter c)

/-- `(\d+)` and what is behind it. -/
def number (cs : List Char) : Option (ℕ × List Char) :=
  let digits := cs.takeWhile Char.isDigit
  if digits ≠ [] then some (Nat.ofDigitChars 10 digits 0, cs.dropWhile Char.isDigit) else none

/-- `db_MB=(\d+) raftlog_MB=(\d+) snapshot_MB=(\d+)` -/
def sizesPattern (c : Char) (behind : List Char) : Option ((ℕ × ℕ × ℕ) × ℕ) := do
  let cs ← (c :: behind).dropPrefix? "db_MB=".toList
  let (db, cs) ← number cs
  let cs ← cs.dropPrefix? " raftlog_MB=".toList
  let (log, cs) ← number cs
  let cs ← cs.dropPrefix? " snapshot_MB=".toList
  let (snap, cs) ← number cs
  some ((db, log, snap), behind.length - cs.length)

/-- `(g\+\w+):keys=(\d+),MB=(\d+)` -/
def tablePattern (letter : Char → Bool) (c : Char) (behind : List Char) :
    Option ((List Char × ℕ × ℕ) × ℕ) := do
  let cs ← (c :: behind).dropPrefix? ['g', '+']
  let name := cs.takeWhile (isWord letter)
  if name = [] then none
  else
    let cs ← (cs.dropWhile (isWord letter)).dropPrefix? ":keys=".toList
    let (keys, cs) ← number cs
    let cs ← cs.dropPrefix? ",MB=".toList
    let (mb, cs) ← number cs
    some (('g' :: '+' :: name, keys, mb), behind.length - cs.length)

end Patterns

structure DiskSummary where
  db : ℕ
  log : ℕ
  snap : ℕ
  tables : List (String × ℕ × ℕ)

/-- `tables.setdefault(tn, [0, 0])` and the two additions. -/
def addTable (tables : List (String × ℕ × ℕ)) (m : List Char × ℕ × ℕ) :
    List (String × ℕ × ℕ) :=
  Dict.addTo (0, 0) (· + ·) (String.ofList m.1) m.2 tables

def readDisk (letter : Char → Bool) (d : DiskSummary) (t : String) : DiskSummary :=
  let tables := (findall (tablePattern letter) t.toList).foldl addTable d.tables
  match (findall sizesPattern t.toList).head? with
  | none => { d with tables := tables }
  | some (db, log, snap) => ⟨d.db + db, d.log + log, d.snap + snap, tables⟩

def summarizeDisk (letter : Char → Bool) (texts : List String) : DiskSummary :=
  texts.foldl (readDisk letter) ⟨0, 0, 0, []⟩

/-! ## The text of a table is read back -/

/-- The end of a name that the pattern takes for the name of a table. -/
def isTableName (letter : Char → Bool) : List Char → Bool
  | 'g' :: '+' :: w => w ≠ [] && w.all (isWord letter)
  | _ => false

def captured (letter : Char → Bool) : List Char → Option (List Char)
  | [] => none
  | c :: cs => if isTableName letter (c :: cs) then some (c :: cs) else captured letter cs

theorem number_toDigits (n : ℕ) {rest : List Char}
    (hrest : ∀ c ∈ rest.head?, c.isDigit = false) :
    number (Nat.toDigits 10 n ++ rest) = some (n, rest) := by
  have hdigits : ∀ c ∈ Nat.toDigits 10 n, c.isDigit = true := fun c hc ↦
    Nat.isDigit_of_mem_toDigits (by norm_num) (by norm_num) hc
  rw [number, takeWhile_append_of_head? hdigits hrest, dropWhile_append_of_head? hdigits hrest,
    if_pos Nat.toDigits_ne_nil, Nat.ofDigitChars_ten_toDigits]

theorem dropPrefix?_append (lit rest : List Char) : (lit ++ rest).dropPrefix? lit = some rest :=
  List.dropPrefix?_append_of_beq rest (beq_self_eq_true lit)

variable {letter : Char → Bool}

theorem isWord_colon (letter : Char → Bool) : isWord letter ':' = false := by
  rfl

/-- What is behind the name in the text of a table. -/
def behindName (keys mb : ℕ) (rest : List Char) : List Char :=
  ":keys=".toList ++ (Nat.toDigits 10 keys ++ (",MB=".toList ++ (Nat.toDigits 10 mb ++ rest)))

theorem behindName_append (keys mb : ℕ) (rest : List Char) :
    behindName keys mb rest = behindName keys mb [] ++ rest := by
  simp [behindName]

theorem tablePattern_eq {w : List Char} (hne : w ≠ [])
    (hword : ∀ c ∈ w, isWord letter c = true) (keys mb : ℕ) {rest : List Char}
    (hrest : ∀ c ∈ rest.head?, c.isDigit = false) :
    tablePattern letter 'g' ('+' :: w ++ behindName keys mb rest) =
      some (('g' :: '+' :: w, keys, mb), ('+' :: w ++ behindName keys mb []).length) := by
  have hcolon : ∀ c ∈ (behindName keys mb rest).head?, isWord letter c = false := by
    rintro c hc
    obtain rfl : ':' = c := by simpa [behindName] using hc
    exact isWord_colon letter
  have hcomma : ∀ c ∈ (",MB=".toList ++ (Nat.toDigits 10 mb ++ rest)).head?,
      c.isDigit = false := by
    rintro c hc
    obtain rfl : ',' = c := by simpa using hc
    decide
  have hstart : ('g' :: ('+' :: w ++ behindName keys mb rest)).dropPrefix? ['g', '+'] =
      some (w ++ behindName keys mb rest) :=
    dropPrefix?_append ['g', '+'] (w ++ behindName keys mb rest)
  have hkeys : (behindName keys mb rest).dropPrefix? ":keys=".toList =
      some (Nat.toDigits 10 keys ++ (",MB=".toList ++ (Nat.toDigits 10 mb ++ rest))) :=
    dropPrefix?_append _ _
  have hlength : ('+' :: w ++ behindName keys mb rest).length - rest.length =
      ('+' :: w ++ behindName keys mb []).length := by
    rw [behindName_append, ← List.append_assoc, List.length_append, Nat.add_sub_cancel]
  simp only [tablePattern, Option.bind_eq_bind, hstart, Option.bind_some,
    takeWhile_append_of_head? hword hcolon, dropWhile_append_of_head? hword hcolon, if_neg hne,
    hkeys, number_toDigits keys hcomma, dropPrefix?_append, number_toDigits mb hrest, hlength]

theorem isTableName_iff (name : List Char) :
    isTableName letter name = true ↔
      ∃ w, name = 'g' :: '+' :: w ∧ w ≠ [] ∧ ∀ c ∈ w, isWord letter c = true := by
  unfold isTableName
  split
  · simp
  · rename_i hother
    simp only [Bool.false_eq_true, false_iff, not_exists, not_and]
    exact fun w hname ↦ absurd hname (hother w)

/-- In front of a colon the pattern matches no other end of a name. -/
theorem tablePattern_eq_none {c : Char} {cs tail : List Char}
    (hcolon : ':' ∉ c :: cs) (hname : isTableName letter (c :: cs) = false) :
    tablePattern letter c (cs ++ ':' :: tail) = none := by
  cases hstart : (c :: (cs ++ ':' :: tail)).dropPrefix? ['g', '+'] with
  | none => simp [tablePattern, hstart]
  | some behind =>
      obtain ⟨p, hp, hbeq⟩ := List.dropPrefix?_eq_some_iff.mp hstart
      obtain rfl : p = ['g', '+'] := by simpa using hbeq
      obtain ⟨rfl, hcs⟩ := List.cons.inj hp
      cases cs with
      | nil => simp at hcs
      | cons d w =>
          obtain ⟨rfl, rfl⟩ := List.cons.inj hcs
          have hstart : ('g' :: ('+' :: w ++ ':' :: tail)).dropPrefix? ['g', '+'] =
              some (w ++ ':' :: tail) := hstart
          simp only [tablePattern, Option.bind_eq_bind, hstart, Option.bind_some]
          by_cases hword : ∀ x ∈ w, isWord letter x = true
          · have hw : w = [] := by
              by_contra hne
              rw [(isTableName_iff _).mpr ⟨w, rfl, hne, hword⟩] at hname
              cases hname
            simp [hw, isWord_colon letter]
          · obtain ⟨x, xs, hx⟩ := List.exists_cons_of_ne_nil
              (mt List.dropWhile_eq_nil_iff.mp hword)
            have hmem : x ∈ w := (List.dropWhile_suffix _).subset (hx ▸ List.mem_cons_self)
            have hne : x ≠ ':' := by
              rintro rfl
              exact hcolon (by simp [hmem])
            have hkeys : (x :: (xs ++ ':' :: tail)).dropPrefix? ":keys=".toList = none := by
              simp [List.dropPrefix?, hne]
            simp only [List.dropWhile_append, hx, List.isEmpty_cons, Bool.false_eq_true, if_false,
              List.cons_append, hkeys, Option.bind_none, ite_self]

theorem tablePattern_of_ne {c : Char} (hc : c ≠ 'g') (behind : List Char) :
    tablePattern letter c behind = none := by
  simp [tablePattern, List.dropPrefix?, hc]

theorem not_mem_toDigits {c : Char} (hc : c.isDigit = false) (n : ℕ) : c ∉ Nat.toDigits 10 n := by
  rw [← toList_toString]
  exact not_mem_toString hc n

theorem findall_behindName (keys mb : ℕ) (rest : List Char) :
    findall (tablePattern letter) (behindName keys mb rest) =
      findall (tablePattern letter) rest := by
  rw [behindName_append]
  refine findall_append_of_quiet (quiet_of_forall fun c hc ↦ tablePattern_of_ne ?_)
  rintro rfl
  simp [behindName, not_mem_toDigits (c := 'g') rfl] at hc

theorem findall_table {name : List Char} (hcolon : ':' ∉ name)
    (keys mb : ℕ) {rest : List Char} (hrest : ∀ c ∈ rest.head?, c.isDigit = false) :
    findall (tablePattern letter) (name ++ behindName keys mb rest) =
      ((captured letter name).map fun w ↦ (w, keys, mb)).toList ++
        findall (tablePattern letter) rest := by
  induction name with
  | nil => exact findall_behindName keys mb rest
  | cons c cs ih =>
      rw [captured]
      split_ifs with hname
      · obtain ⟨w, hsplit, hne, hword⟩ := (isTableName_iff _).mp hname
        obtain ⟨rfl, rfl⟩ := List.cons.inj hsplit
        have hbehind : '+' :: w ++ behindName keys mb rest =
            '+' :: w ++ behindName keys mb [] ++ rest := by
          rw [behindName_append keys mb rest, List.append_assoc]
        rw [List.cons_append,
          findall_cons_of_some (tablePattern_eq hne hword keys mb hrest), hbehind,
          List.drop_left]
        rfl
      · have hnone : tablePattern letter c (cs ++ behindName keys mb rest) = none :=
          tablePattern_eq_none hcolon (by simpa using hname)
        rw [List.cons_append, findall_cons_of_none hnone]
        exact ih fun hmem ↦ hcolon (List.mem_cons_of_mem c hmem)

/-! ## The text of a node is read back -/

section Texts

variable {F : Type} (fp : Doubles F) (letter : Char → Bool)

/-- What the summary takes from the text of a table. -/
def tableEntry (c : TableCounts F) (t : String) : Option (List Char × ℕ × ℕ) :=
  (captured letter t.toList).map fun w ↦
    (w, (c.keys.lookup t).getD 0, fp.rounded ((c.size.lookup t).getD (fp.ofRat 0)))

theorem toList_tableText (c : TableCounts F) (t : String) :
    (tableText fp c t).toList = t.toList ++ behindName ((c.keys.lookup t).getD 0)
      (fp.rounded ((c.size.lookup t).getD (fp.ofRat 0))) [] := by
  have htext : tableText fp c t = t ++ ":keys=" ++ toString ((c.keys.lookup t).getD 0) ++ ",MB=" ++
      toString (fp.rounded ((c.size.lookup t).getD (fp.ofRat 0))) := rfl
  simp [htext, behindName]

theorem findall_tableText (c : TableCounts F) {t : String} (ht : ':' ∉ t.toList)
    {rest : List Char} (hrest : ∀ c ∈ rest.head?, c.isDigit = false) :
    findall (tablePattern letter) ((tableText fp c t).toList ++ rest) =
      (tableEntry fp letter c t).toList ++ findall (tablePattern letter) rest := by
  rw [toList_tableText, List.append_assoc, ← behindName_append, findall_table ht _ _ hrest,
    tableEntry]

theorem findall_tableTexts (c : TableCounts F) {names : List String}
    (hnames : ∀ t ∈ names, ':' ∉ t.toList) :
    findall (tablePattern letter)
        ([' '].intercalate (names.map fun t ↦ (tableText fp c t).toList) ++ ['\n']) =
      names.filterMap (tableEntry fp letter c) := by
  induction names with
  | nil => rfl
  | cons t names ih =>
      rw [List.forall_mem_cons] at hnames
      have hentry : (t :: names).filterMap (tableEntry fp letter c) =
          (tableEntry fp letter c t).toList ++ names.filterMap (tableEntry fp letter c) := by
        rw [List.filterMap_cons]
        cases tableEntry fp letter c t <;> rfl
      rw [hentry, ← ih hnames.2]
      cases names with
      | nil =>
          rw [List.map_singleton, List.intercalate_singleton,
            findall_tableText fp letter c hnames.1 (by simp)]
          rfl
      | cons t' names =>
          rw [List.map_cons, List.map_cons, List.intercalate_cons_cons, List.append_assoc,
            List.append_assoc, findall_tableText fp letter c hnames.1 (by simp),
            List.singleton_append, findall_cons_of_none (tablePattern_of_ne (by decide) _)]

theorem quiet_tablePattern {xs rest : List Char} (hxs : '+' ∉ xs)
    (hrest : rest.head? ≠ some '+') : Quiet (tablePattern letter) xs rest := by
  rintro before x behind rfl
  have hnone : (x :: (behind ++ rest)).dropPrefix? ['g', '+'] = none := by
    rw [Option.eq_none_iff_forall_ne_some]
    intro r hr
    obtain ⟨p, hp, hbeq⟩ := List.dropPrefix?_eq_some_iff.mp hr
    obtain rfl : p = ['g', '+'] := by simpa using hbeq
    have hbehind := (List.cons.inj hp).2
    cases behind with
    | nil => exact hrest (by rw [show rest = '+' :: r from hbehind]; rfl)
    | cons y behind => exact hxs (by simp [(List.cons.inj hbehind).1])
  simp [tablePattern, hnone]

theorem dropPrefix?_eq_none_of_mem {lit xs : List Char} {d c : Char} (hd : d ∈ lit)
    (hxs : d ∉ xs) (hc : c ∉ lit) (rest : List Char) :
    (xs ++ c :: rest).dropPrefix? lit = none := by
  rw [Option.eq_none_iff_forall_ne_some]
  intro r hr
  obtain ⟨p, hp, hbeq⟩ := List.dropPrefix?_eq_some_iff.mp hr
  obtain rfl : p = lit := beq_iff_eq.mp hbeq
  rcases List.append_eq_append_iff.mp hp with ⟨as, rfl, has⟩ | ⟨cs, rfl, -⟩
  · cases as with
    | nil => exact hxs (by simpa using hd)
    | cons a as => exact hc (by simp [(List.cons.inj has).1])
  · exact hxs (List.mem_append_left cs hd)

/-- The sizes as they stand in the text of a node. -/
def sizesChars (db log snap : ℕ) (rest : List Char) : List Char :=
  "db_MB=".toList ++ (Nat.toDigits 10 db ++ (" raftlog_MB=".toList ++ (Nat.toDigits 10 log ++
    (" snapshot_MB=".toList ++ (Nat.toDigits 10 snap ++ rest)))))

theorem sizesPattern_eq (db log snap : ℕ) {rest : List Char}
    (hrest : ∀ c ∈ rest.head?, c.isDigit = false) :
    sizesPattern 'd' (sizesChars db log snap rest).tail =
      some ((db, log, snap), (sizesChars db log snap rest).tail.length - rest.length) := by
  have hstart : ('d' :: (sizesChars db log snap rest).tail).dropPrefix? "db_MB=".toList =
      some (Nat.toDigits 10 db ++ (" raftlog_MB=".toList ++ (Nat.toDigits 10 log ++
        (" snapshot_MB=".toList ++ (Nat.toDigits 10 snap ++ rest))))) :=
    dropPrefix?_append _ _
  have hlog : ∀ cs, ∀ c ∈ (" raftlog_MB=".toList ++ cs).head?, c.isDigit = false := by simp
  have hsnap : ∀ cs, ∀ c ∈ (" snapshot_MB=".toList ++ cs).head?, c.isDigit = false := by simp
  simp only [sizesPattern, Option.bind_eq_bind, hstart, Option.bind_some,
    number_toDigits db (hlog _), dropPrefix?_append, number_toDigits log (hsnap _),
    number_toDigits snap hrest]

theorem findall_sizes {xs : List Char} (hxs : '_' ∉ xs) (db log snap : ℕ) {rest : List Char}
    (hrest : ∀ c ∈ rest.head?, c.isDigit = false) :
    (findall sizesPattern (xs ++ ([':', ' '] ++ sizesChars db log snap rest))).head? =
      some (db, log, snap) := by
  have hbefore : Quiet sizesPattern xs ([':', ' '] ++ sizesChars db log snap rest) := by
    rintro before x behind rfl
    have hnone : (x :: (behind ++ ':' :: ' ' :: sizesChars db log snap rest)).dropPrefix?
        "db_MB=".toList = none := by
      have hmem : '_' ∉ x :: behind := fun hmem ↦ hxs (List.mem_append_right before hmem)
      exact dropPrefix?_eq_none_of_mem (by simp) hmem (by simp) _
    simp only [sizesPattern, List.cons_append, List.nil_append, hnone, Option.bind_eq_bind,
      Option.bind_none]
  have hcolon : Quiet sizesPattern [':', ' '] (sizesChars db log snap rest) := by
    refine quiet_of_forall fun x hx zs ↦ ?_
    have hne : x ≠ 'd' := by
      rintro rfl
      simp at hx
    simp [sizesPattern, List.dropPrefix?, hne]
  have hstart : sizesChars db log snap rest = 'd' :: (sizesChars db log snap rest).tail := rfl
  rw [findall_append_of_quiet hbefore, findall_append_of_quiet hcolon, hstart,
    findall_cons_of_some (sizesPattern_eq db log snap hrest)]
  rfl

/-- What stands behind the sizes. -/
def sizesTail (s : NodeSizes) : List Char :=
  " sst=".toList ++ (Nat.toDigits 10 s.sst ++ (" parts=".toList ++ (Nat.toDigits 10 s.parts ++
    (" ingest_GB=".toList ++ (Nat.toDigits 10 (s.ingest / 100) ++ ('.' ::
      ((zeroPadded 2 (s.ingest % 100)).toList ++ (" keys=".toList ++
        (Nat.toDigits 10 s.keys ++ ['\n'])))))))))

theorem toList_text (s : NodeSizes) :
    s.text.toList = s.hostname.toList ++
      ([':', ' '] ++ sizesChars s.dbMB s.raftlogMB s.snapshotMB (sizesTail s)) := by
  have htext : s.text = s.hostname ++ ": db_MB=" ++ toString s.dbMB ++ " raftlog_MB=" ++
      toString s.raftlogMB ++ " snapshot_MB=" ++ toString s.snapshotMB ++ " " ++
      ("sst=" ++ toString s.sst ++ " parts=" ++ toString s.parts ++ " ") ++
      ("ingest_GB=" ++ toString (s.ingest / 100) ++ "." ++ zeroPadded 2 (s.ingest % 100) ++
        " keys=" ++ toString s.keys ++ "\n") := rfl
  simp [htext, sizesChars, sizesTail]

theorem not_mem_compactedText {c : Char} (hc : c.isDigit = false)
    (hmem : c ∉ "compacted=/ in s\n".toList) (s : NodeSizes) : c ∉ s.compactedText.toList := by
  unfold NodeSizes.compactedText
  split
  · simp
  · rename_i n parts seconds hcompacted
    change c ∉ ("compacted=" ++ toString n ++ "/" ++ toString parts ++ " in " ++
      toString seconds ++ " s\n").toList
    simp at hmem
    simp [not_mem_toDigits hc, hmem]

theorem not_mem_sizesTail (s : NodeSizes) : '+' ∉ sizesTail s := by
  simp [sizesTail, not_mem_toDigits (c := '+') rfl, not_mem_zeroPadded (c := '+') rfl]

theorem not_mem_sizesChars (db log snap : ℕ) {rest : List Char} (hrest : '+' ∉ rest) :
    '+' ∉ sizesChars db log snap rest := by
  simp [sizesChars, not_mem_toDigits (c := '+') rfl, hrest]

/-- The names of the tables, as they are printed. -/
def printedNames (c : TableCounts F) : List String :=
  (Dict.keys c.keys).insertionSort (· ≤ ·)

theorem not_mem_intercalate {c : Char} (hc : c ≠ ' ') {parts : List (List Char)}
    (hparts : ∀ p ∈ parts, c ∉ p) : c ∉ [' '].intercalate parts := by
  induction parts with
  | nil => simp
  | cons p parts ih =>
      rw [List.forall_mem_cons] at hparts
      cases parts with
      | nil => simpa using hparts.1
      | cons q parts =>
          rw [List.intercalate_cons_cons]
          simp [hparts.1, hc, ih hparts.2]

theorem toList_tablesText (c : TableCounts F) :
    (tablesText fp c).toList = "tables partitions=".toList ++ (Nat.toDigits 10 c.n ++
      (' ' :: [' '].intercalate ((printedNames c).map fun t ↦ (tableText fp c t).toList))) := by
  have htext : tablesText fp c = "tables partitions=" ++ toString c.n ++ " " ++
      " ".intercalate ((printedNames c).map (tableText fp c)) := rfl
  rw [htext]
  simp only [String.toList_append, String.toList_intercalate, List.map_map, toList_toString]
  simp [Function.comp_def]

/-- `tail -1` keeps the line of the tables when no name breaks it. -/
theorem lastLine_tablesText (c : TableCounts F)
    (hnames : ∀ t ∈ printedNames c, '\n' ∉ t.toList) :
    lastLine (tablesText fp c) = tablesText fp c := by
  have hline : '\n' ∉ (tablesText fp c).toList := by
    have hparts : '\n' ∉ [' '].intercalate
        ((printedNames c).map fun t ↦ (tableText fp c t).toList) := by
      refine not_mem_intercalate (by decide) fun p hp ↦ ?_
      obtain ⟨t, ht, rfl⟩ := List.mem_map.mp hp
      rw [toList_tableText]
      simp [behindName, hnames t ht, not_mem_toDigits (c := '\n') rfl]
    rw [toList_tablesText]
    simp [hparts, not_mem_toDigits (c := '\n') rfl]
  rw [lastLine, List.splitOn_eq_singleton hline, List.getLast?_singleton, Option.getD_some,
    String.ofList_toList]

/-- A node whose name breaks neither pattern, with the tables of its partitions. -/
structure Readable (s : NodeSizes) (c : TableCounts F) : Prop where
  hostname : '_' ∉ s.hostname.toList ∧ '+' ∉ s.hostname.toList
  names : ∀ t ∈ Dict.keys c.keys, ':' ∉ t.toList ∧ '\n' ∉ t.toList

theorem findall_diskText {s : NodeSizes} {c : TableCounts F} (h : Readable s c) :
    findall (tablePattern letter)
        (s.compactedText ++ s.text ++ lastLine (tablesText fp c) ++ "\n").toList =
      (printedNames c).filterMap (tableEntry fp letter c) := by
  have hnames : ∀ t ∈ printedNames c, ':' ∉ t.toList ∧ '\n' ∉ t.toList := fun t ht ↦
    h.names t ((List.perm_insertionSort _ _).subset ht)
  have hplus : '+' ∉ s.compactedText.toList ++ (s.text.toList ++
      ("tables partitions=".toList ++ Nat.toDigits 10 c.n)) := by
    rw [toList_text]
    simp [not_mem_compactedText (c := '+') rfl (by simp) s, h.hostname.2,
      not_mem_sizesChars _ _ _ (not_mem_sizesTail s), not_mem_toDigits (c := '+') rfl]
  have hsplit : (s.compactedText ++ s.text ++ lastLine (tablesText fp c) ++ "\n").toList =
      (s.compactedText.toList ++ (s.text.toList ++
        ("tables partitions=".toList ++ Nat.toDigits 10 c.n))) ++
      (' ' :: ([' '].intercalate ((printedNames c).map fun t ↦ (tableText fp c t).toList) ++
        ['\n'])) := by
    rw [lastLine_tablesText fp c fun t ht ↦ (hnames t ht).2]
    simp [toList_tablesText]
  rw [hsplit, findall_append_of_quiet (quiet_tablePattern letter hplus (by simp)),
    findall_cons_of_none (tablePattern_of_ne (by decide) _),
    findall_tableTexts fp letter c fun t ht ↦ (hnames t ht).1]

theorem findall_sizes_diskText {s : NodeSizes} {c : TableCounts F} (h : Readable s c) :
    (findall sizesPattern
        (s.compactedText ++ s.text ++ lastLine (tablesText fp c) ++ "\n").toList).head? =
      some (s.dbMB, s.raftlogMB, s.snapshotMB) := by
  have hhost : '_' ∉ s.compactedText.toList ++ s.hostname.toList := by
    rw [List.mem_append, not_or]
    exact ⟨not_mem_compactedText rfl (by simp) s, h.hostname.1⟩
  have hsplit : (s.compactedText ++ s.text ++ lastLine (tablesText fp c) ++ "\n").toList =
      s.compactedText.toList ++ s.hostname.toList ++ ([':', ' '] ++
        sizesChars s.dbMB s.raftlogMB s.snapshotMB
          (sizesTail s ++ ((lastLine (tablesText fp c)).toList ++ ['\n']))) := by
    simp [toList_text, sizesChars]
  rw [hsplit]
  exact findall_sizes hhost _ _ _ (by simp [sizesTail])

end Texts

/-! ## The counts of a node -/

def tablesOf (groups : List PartitionGroup) : List TableMetric :=
  groups.flatMap fun grp ↦ grp.partitions.flatMap PartitionMetric.tables

section Counts

variable {F : Type} (fp : Doubles F)

def TableMetric.mb (t : TableMetric) : F := (Bench.mb fp t.dataSize).getD (fp.ofRat 0)

/-- The counters of `c'` are those of `c` with the tables added. -/
structure Counted (c : TableCounts F) (ts : List TableMetric) (c' : TableCounts F) : Prop where
  keys : c'.keys =
    Dict.addAll 0 (· + ·) TableMetric.tableName TableMetric.keyCount c.keys ts
  size : c'.size =
    Dict.addAll (fp.ofRat 0) fp.add TableMetric.tableName (TableMetric.mb fp) c.size ts

variable {fp}

theorem Counted.append {c c' c'' : TableCounts F} {ts us : List TableMetric}
    (h : Counted fp c ts c') (h' : Counted fp c' us c'') : Counted fp c (ts ++ us) c'' where
  keys := by rw [h'.keys, h.keys, Dict.addAll, Dict.addAll, Dict.addAll, List.foldl_append]
  size := by rw [h'.size, h.size, Dict.addAll, Dict.addAll, Dict.addAll, List.foldl_append]

theorem Counted.foldlM {σ : Type} {f : TableCounts F → σ → Option (TableCounts F)}
    {tables : σ → List TableMetric} (hf : ∀ c x c', f c x = some c' → Counted fp c (tables x) c')
    {xs : List σ} {c c' : TableCounts F} (h : xs.foldlM f c = some c') :
    Counted fp c (xs.flatMap tables) c' := by
  induction xs generalizing c with
  | nil =>
      obtain rfl : c = c' := Option.some.inj h
      exact ⟨rfl, rfl⟩
  | cons x xs ih =>
      rw [List.foldlM_cons, Option.bind_eq_bind, Option.bind_eq_some_iff] at h
      obtain ⟨d, hd, hrest⟩ := h
      exact (hf c x d hd).append (ih hrest)

theorem counted_countTable (c : TableCounts F) (t : TableMetric) (c' : TableCounts F)
    (h : countTable fp c t = some c') : Counted fp c [t] c' := by
  rw [countTable, Option.bind_eq_bind, Option.bind_eq_some_iff] at h
  obtain ⟨size, hsize, h⟩ := h
  obtain rfl := Option.some.inj h
  have hmb : t.mb fp = size := by rw [TableMetric.mb, hsize, Option.getD_some]
  exact ⟨rfl, by rw [Dict.addAll, List.foldl_cons, List.foldl_nil, hmb]⟩

theorem counted_countTables {groups : List PartitionGroup} {c : TableCounts F}
    (h : countTables fp groups = some c) : Counted fp ⟨[], [], 0⟩ (tablesOf groups) c := by
  refine Counted.foldlM (fun c grp c' hgrp ↦ ?_) h
  refine Counted.foldlM (fun c p c' hp ↦ ?_) hgrp
  have hcounted := Counted.foldlM counted_countTable hp
  rw [List.flatMap_singleton'] at hcounted
  exact ⟨hcounted.keys, hcounted.size⟩

end Counts

/-! ## The summary of all nodes -/

section Summary

variable {F : Type} (fp : Doubles F) (letter : Char → Bool)

/-- The summary counts the table under the name `tn`. -/
def CountsAs (t tn : String) : Prop := captured letter t.toList = some tn.toList

instance (t tn : String) : Decidable (CountsAs letter t tn) :=
  inferInstanceAs (Decidable (captured letter t.toList = some tn.toList))

/-- The size of a table on a node: its sizes in all partitions, added up in their
order. -/
def sizeOn (ts : List TableMetric) (t : String) : F :=
  ((ts.filter fun m ↦ m.tableName == t).map (TableMetric.mb fp)).foldl fp.add (fp.ofRat 0)

def keyTotal (ts : List TableMetric) (tn : String) : ℕ :=
  ((ts.filter fun m ↦ CountsAs letter m.tableName tn).map TableMetric.keyCount).sum

def mbTotal (ts : List TableMetric) (tn : String) : ℕ :=
  (((ts.map TableMetric.tableName).dedup.filter fun t ↦ CountsAs letter t tn).map
    fun t ↦ fp.rounded (sizeOn fp ts t)).sum

/-- The items of every key, added up over the keys, are the items of these keys. -/
theorem sum_filter_keys {σ : Type} (key : σ → String) (value : σ → ℕ) (q : String → Prop)
    [DecidablePred q] {ks : List String} (hnodup : ks.Nodup) {xs : List σ}
    (hcover : ∀ x ∈ xs, key x ∈ ks) :
    ((ks.filter fun k ↦ q k).map fun k ↦
        ((xs.filter fun x ↦ key x == k).map value).sum).sum =
      ((xs.filter fun x ↦ q (key x)).map value).sum := by
  induction xs with
  | nil => simp
  | cons x xs ih =>
      rw [List.forall_mem_cons] at hcover
      have hone : ∀ k, (((x :: xs).filter fun x ↦ key x == k).map value).sum =
          value x * (if key x = k then 1 else 0) +
            ((xs.filter fun x ↦ key x == k).map value).sum := by
        intro k
        rw [List.filter_cons]
        by_cases hk : key x = k
        · simp [hk]
        · simp [hk]
      have hx : ((ks.filter fun k ↦ q k).map fun k ↦ if key x = k then 1 else 0).sum =
          if q (key x) then 1 else 0 := by
        rw [sum_ite_eq_count, (hnodup.filter _).count]
        simp [List.mem_filter, hcover.1]
      simp only [hone]
      rw [List.sum_map_add, List.sum_map_mul_left, ih hcover.2, hx, List.filter_cons]
      by_cases hq : q (key x)
      · simp [hq]
      · simp [hq]

theorem filter_tableEntry (c : TableCounts F) (tn : String) (names : List String) :
    ((names.filterMap (tableEntry fp letter c)).filter fun m ↦ String.ofList m.1 == tn).map
        Prod.snd =
      (names.filter fun t ↦ CountsAs letter t tn).map fun t ↦
        ((c.keys.lookup t).getD 0, fp.rounded ((c.size.lookup t).getD (fp.ofRat 0))) := by
  induction names with
  | nil => rfl
  | cons t names ih =>
      rw [List.filterMap_cons, List.filter_cons, tableEntry]
      cases hname : captured letter t.toList with
      | none => simpa [CountsAs, hname] using ih
      | some w =>
          have hiff : String.ofList w = tn ↔ CountsAs letter t tn := by
            rw [CountsAs, hname, Option.some.injEq, ← String.toList_inj, String.toList_ofList]
          simp only [Option.map_some, List.filter_cons, beq_iff_eq, hiff, decide_eq_true_eq]
          split_ifs
          · rw [List.map_cons, List.map_cons, ih]
          · exact ih

/-- What one node adds to the two numbers of a table. -/
theorem sum_tableEntries {groups : List PartitionGroup} {c : TableCounts F}
    (hc : countTables fp groups = some c) (tn : String) :
    ((((printedNames c).filterMap (tableEntry fp letter c)).filter
        fun m ↦ String.ofList m.1 == tn).map Prod.snd).sum =
      (keyTotal letter (tablesOf groups) tn, mbTotal fp letter (tablesOf groups) tn) := by
  have hcounted := counted_countTables hc
  have hkey : ∀ t, (c.keys.lookup t).getD 0 =
      (((tablesOf groups).filter fun m ↦ m.tableName == t).map TableMetric.keyCount).sum := by
    intro t
    rw [hcounted.keys, Dict.lookup_addAll, List.sum_eq_foldl]
    rfl
  have hsize : ∀ t, (c.size.lookup t).getD (fp.ofRat 0) = sizeOn fp (tablesOf groups) t := by
    intro t
    rw [hcounted.size, Dict.lookup_addAll]
    rfl
  have hnodup : (Dict.keys c.keys).Nodup := by
    rw [hcounted.keys]
    exact Dict.nodup_keys_addAll _ _ _ _ (d := []) List.nodup_nil _
  have hmem : ∀ t, t ∈ Dict.keys c.keys ↔ t ∈ (tablesOf groups).map TableMetric.tableName := by
    intro t
    rw [hcounted.keys, Dict.mem_keys_addAll, List.mem_map]
    simp [Dict.keys]
  have hperm : (printedNames c).Perm ((tablesOf groups).map TableMetric.tableName).dedup := by
    refine (List.perm_insertionSort _ _).trans ((List.perm_ext_iff_of_nodup hnodup
      (List.nodup_dedup _)).mpr fun t ↦ ?_)
    rw [hmem, List.mem_dedup]
  have hcover : ∀ m ∈ tablesOf groups,
      m.tableName ∈ ((tablesOf groups).map TableMetric.tableName).dedup := fun m hm ↦
    List.mem_dedup.mpr (List.mem_map_of_mem hm)
  rw [filter_tableEntry, ((hperm.filter _).map _).sum_eq, Prod.ext_iff]
  simp only [hkey, hsize]
  constructor
  · rw [← AddMonoidHom.coe_fst, map_list_sum, List.map_map]
    exact sum_filter_keys TableMetric.tableName TableMetric.keyCount
      (fun t ↦ CountsAs letter t tn) (List.nodup_dedup _) hcover
  · rw [← AddMonoidHom.coe_snd, map_list_sum, List.map_map]
    rfl


theorem summarizeDisk_tables (d : DiskSummary) (texts : List String) :
    (texts.foldl (readDisk letter) d).tables =
      Dict.addAll (0, 0) (· + ·) (fun m ↦ String.ofList m.1) Prod.snd d.tables
        (texts.flatMap fun t ↦ findall (tablePattern letter) t.toList) := by
  induction texts generalizing d with
  | nil => rfl
  | cons t texts ih =>
      have htables : (readDisk letter d t).tables =
          (findall (tablePattern letter) t.toList).foldl addTable d.tables := by
        simp only [readDisk]
        cases (findall sizesPattern t.toList).head? <;> rfl
      rw [List.foldl_cons, ih, htables, List.flatMap_cons, Dict.addAll, Dict.addAll,
        List.foldl_append]
      rfl

/-- The directories of a text that holds their sizes. -/
theorem summarizeDisk_sizes (size : String → ℕ × ℕ × ℕ) (d : DiskSummary) (texts : List String)
    (hsize : ∀ t ∈ texts, (findall sizesPattern t.toList).head? = some (size t)) :
    ((texts.foldl (readDisk letter) d).db, (texts.foldl (readDisk letter) d).log,
        (texts.foldl (readDisk letter) d).snap) =
      (d.db, d.log, d.snap) + (texts.map size).sum := by
  induction texts generalizing d with
  | nil => rfl
  | cons t texts ih =>
      rw [List.forall_mem_cons] at hsize
      have hread : ((readDisk letter d t).db, (readDisk letter d t).log,
          (readDisk letter d t).snap) = (d.db, d.log, d.snap) + size t := by
        simp only [readDisk, hsize.1]
        rfl
      rw [List.foldl_cons, ih _ hsize.2, hread, List.map_cons, List.sum_cons, add_assoc]

theorem sum_map_pair {σ α β : Type} [AddMonoid α] [AddMonoid β] (f : σ → α) (g : σ → β)
    (xs : List σ) : (xs.map fun x ↦ (f x, g x)).sum = ((xs.map f).sum, (xs.map g).sum) := by
  induction xs with
  | nil => rfl
  | cons x xs ih => rw [List.map_cons, List.sum_cons, ih, Prod.mk_add_mk]; rfl

/-- A node of the bench whose script wrote its file. -/
structure DiskNode where
  sizes : NodeSizes
  groups : List PartitionGroup
  counts : TableCounts F
  counted : countTables fp groups = some counts
  hostname : '_' ∉ sizes.hostname.toList ∧ '+' ∉ sizes.hostname.toList
  names : ∀ t ∈ tablesOf groups, ':' ∉ t.tableName.toList ∧ '\n' ∉ t.tableName.toList

variable {fp}

def DiskNode.text (n : DiskNode fp) : String :=
  n.sizes.compactedText ++ n.sizes.text ++ lastLine (tablesText fp n.counts) ++ "\n"

theorem DiskNode.diskText_eq (n : DiskNode fp) : diskText fp n.sizes n.groups = some n.text := by
  rw [diskText, n.counted]
  rfl

theorem DiskNode.readable (n : DiskNode fp) : Readable n.sizes n.counts where
  hostname := n.hostname
  names := by
    intro t ht
    rw [(counted_countTables n.counted).keys, Dict.mem_keys_addAll] at ht
    rcases ht with ht | ⟨m, hm, rfl⟩
    · cases ht
    · exact n.names m hm

/-- The summary of the texts of all nodes holds the sums over the nodes: of the sizes
of the directories, and for every name of the key counts of the tables that the
pattern takes for it, and of their sizes as each node rounds them. -/
theorem summarize_disk (nodes : List (DiskNode fp)) (texts : List String)
    (htexts : List.Forall₂ (fun n t ↦ diskText fp n.sizes n.groups = some t) nodes texts) :
    (summarizeDisk letter texts).db = (nodes.map fun n ↦ n.sizes.dbMB).sum ∧
      (summarizeDisk letter texts).log = (nodes.map fun n ↦ n.sizes.raftlogMB).sum ∧
      (summarizeDisk letter texts).snap = (nodes.map fun n ↦ n.sizes.snapshotMB).sum ∧
      ∀ tn, ((summarizeDisk letter texts).tables.lookup tn).getD (0, 0) =
        ((nodes.map fun n ↦ keyTotal letter (tablesOf n.groups) tn).sum,
          (nodes.map fun n ↦ mbTotal fp letter (tablesOf n.groups) tn).sum) := by
  obtain rfl : texts = nodes.map DiskNode.text := by
    induction htexts with
    | nil => rfl
    | @cons n t nodes texts htext _ ih =>
        rw [n.diskText_eq, Option.some.injEq] at htext
        rw [List.map_cons, htext, ih]
  have hsizes := summarizeDisk_sizes letter
    (fun t ↦ ((findall sizesPattern t.toList).head?).getD 0) ⟨0, 0, 0, []⟩
    (nodes.map DiskNode.text) (by
      intro t ht
      obtain ⟨n, -, rfl⟩ := List.mem_map.mp ht
      rw [DiskNode.text, findall_sizes_diskText fp n.readable]
      rfl)
  have htriples : (nodes.map DiskNode.text).map
      (fun t ↦ ((findall sizesPattern t.toList).head?).getD 0) =
        nodes.map fun n ↦ (n.sizes.dbMB, n.sizes.raftlogMB, n.sizes.snapshotMB) := by
    rw [List.map_map]
    refine List.map_congr_left fun n _ ↦ ?_
    rw [Function.comp_apply, DiskNode.text, findall_sizes_diskText fp n.readable]
    rfl
  rw [htriples] at hsizes
  rw [sum_map_pair, sum_map_pair] at hsizes
  obtain ⟨hdb, hlogs⟩ := Prod.mk.inj hsizes
  obtain ⟨hlog, hsnap⟩ := Prod.mk.inj hlogs
  refine ⟨?_, ?_, ?_, fun tn ↦ ?_⟩
  · simpa [summarizeDisk] using hdb
  · simpa [summarizeDisk] using hlog
  · simpa [summarizeDisk] using hsnap
  · have hentries : ∀ n : DiskNode fp, ((((findall (tablePattern letter) n.text.toList).filter
          fun m ↦ String.ofList m.1 == tn).map Prod.snd).sum) =
        (keyTotal letter (tablesOf n.groups) tn, mbTotal fp letter (tablesOf n.groups) tn) := by
      intro n
      rw [DiskNode.text, findall_diskText fp letter n.readable,
        sum_tableEntries fp letter n.counted]
    rw [summarizeDisk, summarizeDisk_tables, Dict.lookup_addAll, List.flatMap_map,
      List.filter_flatMap, List.map_flatMap, ← sum_map_pair, ← List.map_congr_left fun n _ ↦
        hentries n, List.flatMap_def]
    refine List.sum_eq_foldl.symm.trans ?_
    rw [List.sum_flatten, List.map_map]
    rfl

end Summary

/-- Megabytes as whole numbers. -/
def wholeMB : Doubles ℕ where
  float s := (number s.toList).map Prod.fst
  ofRat q := q.num.toNat
  add := (· + ·)
  mul := (· * ·)
  rounded n := n

def samplePartition : PartitionMetric := ⟨[⟨"g+v", 3, "2 MB"⟩, ⟨"s+v", 4, "1 GB"⟩]⟩

def sampleNode : DiskNode wholeMB where
  sizes := ⟨none, "node1", 7, 5, 1, 12, 2, 314, 70⟩
  groups := [⟨[samplePartition]⟩, ⟨[samplePartition]⟩]
  counts := ⟨[("g+v", 6), ("s+v", 8)], [("g+v", 4), ("s+v", 2048)], 2⟩
  counted := by decide
  hostname := by decide
  names := by decide

/-- Two nodes with two partitions each; the tables of the schema are not counted. -/
theorem summarize_disk_two_nodes :
    (summarizeDisk (fun _ ↦ false) [sampleNode.text, sampleNode.text]).db = 14 ∧
      ((summarizeDisk (fun _ ↦ false) [sampleNode.text, sampleNode.text]).tables.lookup
        "g+v").getD (0, 0) = (12, 8) := by
  have h := summarize_disk (fun _ ↦ false) [sampleNode, sampleNode] _
    (.cons sampleNode.diskText_eq (.cons sampleNode.diskText_eq .nil))
  obtain ⟨hdb, -, -, htables⟩ := h
  exact ⟨hdb, (htables "g+v").trans (by decide)⟩

end HugeGraphValidation.Bench

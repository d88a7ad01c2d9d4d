/-
First observations of an address (`dc_learn.rs`).

# The log and its replay

The learned file is a log of records, one a line, and `load` replays it
(`load_eq`). A line that `persist` writes parses back to its record
(`parseLine_persistLine`), and behind a file that ends with a line feed
it is one more line (`records_append`).

# The invariant

For one address, `Fresh` says that nobody knows it: no record in the
file, none on the way to it, none in the map. `Settled v` says that the
map has `v`, and that the last record for the address on file, if any,
and every one on the way is `v`. Each step keeps the one or the other,
or settles a fresh address on the arguments of the `learn` call it lets
through (`Fresh.observed`, `step_inv`), as long as the step meets
`StepOk`: an append that writes its line whole and not behind an
unterminated one, or that writes nothing; a load that finds the record
of an address the map knows on file, where it may be missing because
its append is still on the way, or has failed.
`first_observation_stands` is the run lemma.
-/
import Wrtg.DcLearn
import Wrtg.Lib.Run

namespace Wrtg.DcLearn

open Lib Mtproto

-- ======================================================== the records

/-- The entry a line is, keyed by its address. -/
def parseRecord (line : Text) : Option (Text × (Int × Bool)) :=
  (parseLine line).map fun r => (r.1, (r.2.1, r.2.2))

/-- The valid lines of a file, as a log. -/
def records (f : FileContent) : List (Text × (Int × Bool)) :=
  f.lines.filterMap parseRecord

theorem foldl_loadLine (lines : List Text) (map : LearnMap) :
    lines.foldl loadLine map = replay (lines.filterMap parseRecord) map := by
  induction lines generalizing map with
  | nil => rfl
  | cons line lines ih =>
      rw [List.foldl_cons, ih, List.filterMap_cons]
      unfold loadLine parseRecord
      cases parseLine line with
      | none => rfl
      | some r => rfl

/-- `load` replays the two files. -/
theorem load_eq (learned manual : FileContent) :
    load learned manual
      = replay (records manual) (replay (records learned) ∅) := by
  show manual.lines.foldl loadLine (learned.lines.foldl loadLine ∅) = _
  rw [foldl_loadLine, foldl_loadLine]
  rfl

/-- The datacenters there are. -/
theorem validDc_cases {dc : Int} (h : validDc dc = true) :
    dc = 1 ∨ dc = 2 ∨ dc = 3 ∨ dc = 4 ∨ dc = 5 ∨ dc = 203 := by
  unfold validDc at h
  simp only [Bool.or_eq_true, Bool.and_eq_true, decide_eq_true_eq,
    beq_iff_eq] at h
  omega

/-- What stands behind the address in a line of `persist`. -/
def lineTail (dc : Int) (isMedia : Bool) : Text :=
  ' ' :: (Text.showInt dc ++ if isMedia then " media".toList else [])

/-- The tail of a persisted line: its words and its ends. -/
private theorem lineTail_spec {dc : Int} (h : validDc dc = true)
    (isMedia : Bool) :
    '#' ∉ lineTail dc isMedia ∧ '\n' ∉ lineTail dc isMedia
      ∧ (lineTail dc isMedia).getLast?.any Text.isWhitespace = false
      ∧ Text.splitWhitespace (lineTail dc isMedia).tail
          = Text.showInt dc :: (if isMedia then ["media".toList] else [])
      ∧ Text.parseI32 (Text.showInt dc) = some dc := by
  rcases validDc_cases h with rfl | rfl | rfl | rfl | rfl | rfl <;>
    cases isMedia <;> decide

theorem persistLine_eq (ip : Text) (dc : Int) (isMedia : Bool) :
    persistLine ip dc isMedia = ip ++ lineTail dc isMedia := rfl

/-- Digits and dots are not white space, and neither a comment sign nor
a line end. -/
private theorem addrChar {c : Char} (h : Text.isDigit c = true ∨ c = '.') :
    Text.isWhitespace c = false ∧ c ≠ '#' ∧ c ≠ '\n' := by
  rcases h with h | rfl
  · unfold Text.isDigit at h
    simp only [Bool.and_eq_true, decide_eq_true_eq] at h
    have h0 : 48 ≤ c.toNat := h.1
    have h9 : c.toNat ≤ 57 := h.2
    refine ⟨?_, ?_, ?_⟩
    · unfold Text.isWhitespace
      simp only [Bool.or_eq_false_iff, Bool.and_eq_false_iff,
        decide_eq_false_iff_not, beq_eq_false_iff_ne]
      omega
    · intro h
      subst h
      exact absurd h0 (by decide)
    · intro h
      subst h
      exact absurd h0 (by decide)
  · decide

/-- A line that `persist` writes: its characters and its ends. -/
theorem persistLine_spec {ip : Text} {o : List Nat}
    (hip : Text.parseIpv4Addr ip = some o) {dc : Int}
    (hdc : validDc dc = true) (isMedia : Bool) :
    '#' ∉ persistLine ip dc isMedia ∧ '\n' ∉ persistLine ip dc isMedia
      ∧ (∀ c, (persistLine ip dc isMedia).getLast? = some c →
          Text.isWhitespace c = false)
      ∧ (∀ c, (persistLine ip dc isMedia).head? = some c →
          Text.isWhitespace c = false) := by
  obtain ⟨hhash, hnl, hlast, -, -⟩ := lineTail_spec hdc isMedia
  have hchars := fun c hc => addrChar (Text.parseIpv4Addr_chars hip c hc)
  rw [persistLine_eq]
  refine ⟨?_, ?_, ?_, ?_⟩
  · intro h
    rcases List.mem_append.mp h with h | h
    · exact (hchars _ h).2.1 rfl
    · exact hhash h
  · intro h
    rcases List.mem_append.mp h with h | h
    · exact (hchars _ h).2.2 rfl
    · exact hnl h
  · intro c hc
    have hne : lineTail dc isMedia ≠ [] := List.cons_ne_nil _ _
    rw [List.getLast?_append_of_ne_nil _ hne] at hc
    rw [hc] at hlast
    exact hlast
  · intro c hc
    cases ip with
    | nil => exact absurd rfl (Text.parseIpv4Addr_ne_nil hip)
    | cons d ip =>
        have hd : d = c := Option.some.inj hc
        rw [← hd]
        exact (hchars d (List.mem_cons_self ..)).1

/-- The line `persist` writes parses back. -/
theorem parseLine_persistLine {ip : Text} {o : List Nat}
    (hip : Text.parseIpv4Addr ip = some o) {dc : Int}
    (hdc : validDc dc = true) (isMedia : Bool) :
    parseLine (persistLine ip dc isMedia) = some (ip, dc, isMedia) := by
  obtain ⟨hhash, -, hlast, hfirst⟩ := persistLine_spec hip hdc isMedia
  obtain ⟨-, -, -, hwords, hnum⟩ := lineTail_spec hdc isMedia
  have hne := Text.parseIpv4Addr_ne_nil hip
  have hsplit : Text.splitWhitespace (persistLine ip dc isMedia)
      = ip :: Text.showInt dc
          :: (if isMedia then ["media".toList] else []) := by
    have hgo := Text.splitWhitespaceGo_append (w := ip)
      (fun c hc => (addrChar (Text.parseIpv4Addr_chars hip c hc)).1) []
      (lineTail dc isMedia)
    rw [Text.splitWhitespace, persistLine_eq, hgo, List.nil_append, ← hwords]
    show (if ip.isEmpty then _ else ip :: _) = _
    rw [if_neg (by simpa using hne)]
    rfl
  unfold parseLine
  rw [Text.before_eq hhash, Text.trim_eq hfirst hlast]
  simp only [hsplit]
  rw [if_neg (by simp [persistLine_eq, hne]), if_neg (by simp [hip]), hnum]
  show (if validDc dc = true then _ else _) = _
  rw [if_pos hdc]
  cases isMedia <;> rfl

-- ============================================================ appending

/-- A file an append adds a line of its own to. -/
def Terminated : FileContent → Prop
  | .missing => True
  | .text t => Text.Terminated t
  | .binary => False

/-- Appending to a terminated file appends one record. -/
theorem records_append {f : FileContent} (hf : Terminated f) {ip : Text}
    {o : List Nat} (hip : Text.parseIpv4Addr ip = some o) {dc : Int}
    (hdc : validDc dc = true) (isMedia : Bool) :
    records (appendLine f (persistLine ip dc isMedia) .written)
      = records f ++ [(ip, (dc, isMedia))] := by
  obtain ⟨-, hnl, hlast, -⟩ := persistLine_spec hip hdc isMedia
  have hcr : (persistLine ip dc isMedia).getLast? ≠ some '\r' := by
    intro h
    exact absurd (hlast _ h) (by decide)
  have hrec : parseRecord (persistLine ip dc isMedia)
      = some (ip, (dc, isMedia)) := by
    unfold parseRecord
    rw [parseLine_persistLine hip hdc]
    rfl
  cases f with
  | missing =>
      have hlines := (Text.lines_append_line (.inl rfl) hnl hcr).1
      show (Text.lines ([] ++ (persistLine ip dc isMedia ++ ['\n']))).filterMap
        parseRecord = _
      rw [hlines, List.filterMap_append, List.filterMap_cons, hrec]
      rfl
  | text t =>
      have hlines := (Text.lines_append_line hf hnl hcr).1
      show (Text.lines (t ++ (persistLine ip dc isMedia ++ ['\n']))).filterMap
        parseRecord = _
      rw [hlines, List.filterMap_append, List.filterMap_cons, hrec]
      rfl
  | binary => cases hf

-- ====================================================== the invariant

def Learning.entry (l : Learning) : Int × Bool := (l.dc, l.isMedia)

/-- The records of a file for one address, in order. -/
def onFile (a : Text) (f : FileContent) : List (Int × Bool) :=
  recordsOf a (records f)

/-- The first learning of an address that took effect. -/
def firstLearnt (a : Text) (history : List Learning) : Option (Int × Bool) :=
  (history.find? fun l => l.ip == a).map Learning.entry

/-- The first observation of an address: its first valid line in the
initial file, or else the first `learn` call for it that took effect. -/
def firstObservation (a : Text) (file : FileContent)
    (history : List Learning) : Option (Int × Bool) :=
  (onFile a file).head?.or (firstLearnt a history)

theorem firstObservation_append (a : Text) (file : FileContent)
    (history : List Learning) (l : Learning) :
    firstObservation a file (history ++ [l])
      = (firstObservation a file history).or
          (if l.ip = a then some l.entry else none) := by
  unfold firstObservation firstLearnt
  rw [List.find?_append, Option.or_assoc]
  congr 1
  cases history.find? fun l => l.ip == a with
  | some m => rfl
  | none =>
      by_cases h : l.ip = a
      · simp [h]
      · simp [h]

/-- Nobody knows the address. -/
structure Fresh (a : Text) (s : State) : Prop where
  file : onFile a s.file = []
  pending : ∀ l ∈ s.pending, l.ip ≠ a
  map : lookup s.map a = none

/-- The address is known as `v`, in the map, by its last record on
file, if there is one, and by those on the way. -/
structure Settled (a : Text) (v : Int × Bool) (s : State) : Prop where
  file : ∀ e, (onFile a s.file).getLast? = some e → e = v
  pending : ∀ l ∈ s.pending, l.ip = a → l.entry = v
  map : lookup s.map a = some v

/-- What is known of an address whose first observation is `first`. -/
def Known (a : Text) (first : Option (Int × Bool)) (s : State) : Prop :=
  match first with
  | none => Fresh a s
  | some v => Settled a v s

/-- Only the file, the appends and the map say what is known. -/
theorem Known.of_eq {a : Text} {first : Option (Int × Bool)}
    {s s' : State} (h : Known a first s) (hfile : s'.file = s.file)
    (hpending : s'.pending = s.pending) (hmap : s'.map = s.map) :
    Known a first s' := by
  cases first with
  | none =>
      refine ⟨?_, ?_, ?_⟩
      · rw [hfile]; exact Fresh.file h
      · rw [hpending]; exact Fresh.pending h
      · rw [hmap]; exact Fresh.map h
  | some v =>
      refine ⟨?_, ?_, ?_⟩
      · rw [hfile]; exact Settled.file h
      · rw [hpending]; exact Settled.pending h
      · rw [hmap]; exact Settled.map h

/-- The invariant for one address, `first` being its first
observation. -/
structure Inv (a : Text) (first : Option (Int × Bool)) (s : State) :
    Prop where
  calls : ∀ l ∈ s.checked ++ s.pending,
    (∃ o, Text.parseIpv4Addr l.ip = some o) ∧ validDc l.dc = true
  admin : onFile a s.admin = []
  known : Known a first s

/-- The steps first observations survive: an append writes its line
whole, and not behind an unterminated one, or writes nothing; and a
`load` finds the address on file if the map knows it. -/
def StepOk (a : Text) (s : State) : Action → Prop
  | .append _ .written => Terminated s.file
  | .append _ .openFailed => True
  | .append _ (.writeFailed n) => n = 0
  | .load => (lookup s.map a).isSome → onFile a s.file ≠ []
  | _ => True

instance (f : FileContent) : Decidable (Terminated f) :=
  match f with
  | .missing => inferInstanceAs (Decidable True)
  | .text t => inferInstanceAs (Decidable (Text.Terminated t))
  | .binary => inferInstanceAs (Decidable False)

instance (a : Text) (s : State) (x : Action) : Decidable (StepOk a s x) :=
  match x with
  | .append _ .written => inferInstanceAs (Decidable (Terminated s.file))
  | .append _ (.writeFailed n) => inferInstanceAs (Decidable (n = 0))
  | .load => inferInstanceAs
      (Decidable ((lookup s.map a).isSome → onFile a s.file ≠ []))
  | .append _ .openFailed | .learn _ | .insert _ =>
      inferInstanceAs (Decidable True)

-- =========================================================== the steps

theorem mem_checked_erase {s : State} {i : Nat} {l m : Learning}
    (hm : m ∈ s.checked.eraseIdx i ++ (s.pending ++ [l]))
    (hl : s.checked[i]? = some l) : m ∈ s.checked ++ s.pending := by
  rcases List.mem_append.mp hm with hm | hm
  · exact List.mem_append_left _ (List.mem_of_mem_eraseIdx hm)
  · rcases List.mem_append.mp hm with hm | hm
    · exact List.mem_append_right _ hm
    · rw [List.mem_singleton] at hm
      subst hm
      exact List.mem_append_left _ (List.mem_of_getElem? hl)

theorem learnCheck_dc {map : LearnMap} {l : Learning}
    (h : learnCheck map l = true) : validDc l.dc = true := by
  unfold learnCheck at h
  split at h
  · cases h
  · next hc =>
      simp only [Bool.or_eq_true, not_or, Bool.not_eq_true,
        Bool.not_eq_false'] at hc
      exact hc.1.2

/-- The first observation of a fresh address settles it. -/
theorem Fresh.observed {l : Learning} {s s' : State} (h : Fresh l.ip s)
    (hfile : s'.file = s.file) (hpending : s'.pending = s.pending ++ [l])
    (hmap : s'.map = s.map.insert l.ip l.entry) :
    Settled l.ip l.entry s' := by
  refine ⟨?_, ?_, ?_⟩
  · intro e he
    rw [hfile, h.file] at he
    cases he
  · intro m hm hma
    rw [hpending] at hm
    rcases List.mem_append.mp hm with hm | hm
    · exact absurd hma (h.pending m hm)
    · rw [List.mem_singleton.mp hm]
  · rw [hmap]
    exact AList.lookup_insert _

/-- An observation of another address changes nothing for this one. -/
theorem Known.observed_ne {a : Text} {first : Option (Int × Bool)}
    {l : Learning} {s s' : State} (h : Known a first s) (ha : l.ip ≠ a)
    (hfile : s'.file = s.file) (hpending : s'.pending = s.pending ++ [l])
    (hmap : s'.map = s.map.insert l.ip l.entry) : Known a first s' := by
  have hlookup : lookup s'.map a = lookup s.map a := by
    rw [hmap]
    exact AList.lookup_insert_ne (Ne.symm ha)
  have hmem : ∀ m ∈ s'.pending, m.ip = a → m ∈ s.pending := by
    intro m hm hma
    rw [hpending] at hm
    rcases List.mem_append.mp hm with hm | hm
    · exact hm
    · exact absurd (List.mem_singleton.mp hm ▸ hma) ha
  cases first with
  | none =>
      refine ⟨?_, ?_, hlookup.trans (Fresh.map h)⟩
      · rw [hfile]
        exact Fresh.file h
      · intro m hm hma
        exact Fresh.pending h m (hmem m hm hma) hma
  | some v =>
      refine ⟨?_, ?_, hlookup.trans (Settled.map h)⟩
      · rw [hfile]
        exact Settled.file h
      · intro m hm hma
        exact Settled.pending h m (hmem m hm hma) hma

/-- `insert` keeps the invariant: it settles a fresh address on the
call it lets through, and ignores every later one. -/
theorem insert_inv {a : Text} {file : FileContent} {s s' : State} {i : Nat}
    (h : Inv a (firstObservation a file s.history) s)
    (hs : apply (.insert i) s = some s') :
    Inv a (firstObservation a file s'.history) s' := by
  simp only [apply] at hs
  cases hl : s.checked[i]? with
  | none => simp [hl] at hs
  | some l =>
      simp only [hl, learnInsert] at hs
      by_cases hin : (lookup s.map l.ip).isSome
      · simp only [hin, if_true, Bool.false_eq_true, if_false] at hs
        cases hs
        refine ⟨?_, h.admin, h.known.of_eq rfl rfl rfl⟩
        intro m hm
        refine h.calls m ?_
        rcases List.mem_append.mp hm with hm | hm
        · exact List.mem_append_left _ (List.mem_of_mem_eraseIdx hm)
        · exact List.mem_append_right _ hm
      · simp only [hin, if_false, if_true, Bool.false_eq_true] at hs
        cases hs
        refine ⟨fun m hm => h.calls m (mem_checked_erase hm hl), h.admin, ?_⟩
        show Known a (firstObservation a file (s.history ++ [l])) _
        rw [firstObservation_append]
        have hknown := h.known
        by_cases ha : l.ip = a
        · subst ha
          cases hv : firstObservation l.ip file s.history with
          | some v =>
              rw [hv] at hknown
              exact absurd (by rw [Settled.map hknown]; rfl) hin
          | none =>
              rw [hv] at hknown
              rw [if_pos rfl]
              exact Fresh.observed hknown rfl rfl rfl
        · rw [if_neg ha, Option.or_none]
          exact hknown.observed_ne ha rfl rfl rfl

/-- An append that starts a line of its own adds its record. -/
theorem onFile_appendLine (a : Text) {file : FileContent} {l : Learning}
    (hterm : Terminated file) {o : List Nat}
    (hip : Text.parseIpv4Addr l.ip = some o) (hdc : validDc l.dc = true) :
    onFile a (appendLine file (persistLine l.ip l.dc l.isMedia) .written)
      = onFile a file ++ if l.ip = a then [l.entry] else [] := by
  unfold onFile
  rw [records_append hterm hip hdc, recordsOf_append, recordsOf_cons]
  rfl

/-- Writing nothing leaves the records alone. -/
theorem records_appendText_nil (f : FileContent) :
    records (appendText f []) = records f := by
  cases f with
  | missing => rfl
  | text t =>
      show records (.text (t ++ [])) = _
      rw [List.append_nil]
  | binary => rfl

/-- An append adds the record of its own address, or nothing. -/
theorem onFile_append {a : Text} {s : State} {i : Nat} {how : Appended}
    (hok : StepOk a s (.append i how)) {l : Learning} {o : List Nat}
    (hip : Text.parseIpv4Addr l.ip = some o) (hdc : validDc l.dc = true) :
    onFile a (appendLine s.file (persistLine l.ip l.dc l.isMedia) how)
        = onFile a s.file
      ∨ l.ip = a
        ∧ onFile a (appendLine s.file (persistLine l.ip l.dc l.isMedia) how)
          = onFile a s.file ++ [l.entry] := by
  cases how with
  | written =>
      have hfile := onFile_appendLine a hok hip hdc
      by_cases ha : l.ip = a
      · rw [if_pos ha] at hfile
        exact .inr ⟨ha, hfile⟩
      · rw [if_neg ha, List.append_nil] at hfile
        exact .inl hfile
  | openFailed => exact .inl rfl
  | writeFailed n =>
      cases (hok : n = 0)
      left
      exact congrArg (recordsOf a) (records_appendText_nil s.file)

/-- An append that meets `StepOk` keeps the invariant. -/
theorem append_inv {a : Text} {first : Option (Int × Bool)} {s s' : State}
    {i : Nat} {how : Appended} (h : Inv a first s)
    (hok : StepOk a s (.append i how))
    (hs : apply (.append i how) s = some s') : Inv a first s' := by
  simp only [apply] at hs
  cases hl : s.pending[i]? with
  | none => simp [hl] at hs
  | some l =>
      simp only [hl] at hs
      cases hs
      have hmem : l ∈ s.pending := List.mem_of_getElem? hl
      obtain ⟨⟨o, hip⟩, hdc⟩ := h.calls l (List.mem_append_right _ hmem)
      refine ⟨?_, h.admin, ?_⟩
      · intro m hm
        refine h.calls m ?_
        rcases List.mem_append.mp hm with hm | hm
        · exact List.mem_append_left _ hm
        · exact List.mem_append_right _ (List.mem_of_mem_eraseIdx hm)
      · have hknown := h.known
        have hrest : ∀ m ∈ s.pending.eraseIdx i, m ∈ s.pending :=
          fun m hm => List.mem_of_mem_eraseIdx hm
        cases first with
        | none =>
            refine ⟨?_, fun m hm => hknown.pending m (hrest m hm),
              hknown.map⟩
            rcases onFile_append hok hip hdc with hfile | ⟨ha, -⟩
            · exact hfile.trans hknown.file
            · exact absurd ha (hknown.pending l hmem)
        | some v =>
            refine ⟨?_, fun m hm => hknown.pending m (hrest m hm),
              hknown.map⟩
            intro e he
            rcases onFile_append hok hip hdc with hfile | ⟨ha, hfile⟩
            · exact hknown.file e (hfile ▸ he)
            · rw [hfile, List.getLast?_concat] at he
              rw [← Option.some.inj he]
              exact hknown.pending l hmem ha

/-- A `load` that finds what the map knows on file keeps the
invariant. -/
theorem load_inv {a : Text} {first : Option (Int × Bool)} {s s' : State}
    (h : Inv a first s) (hok : StepOk a s .load)
    (hs : apply .load s = some s') : Inv a first s' := by
  simp only [apply] at hs
  cases hs
  refine ⟨h.calls, h.admin, ?_⟩
  have hknown := h.known
  have hadmin : lookup (DcLearn.load s.file s.admin) a
      = (replay (records s.file) ∅).lookup a := by
    unfold lookup
    rw [load_eq]
    exact lookup_replay_nil h.admin _
  cases first with
  | none =>
      refine ⟨hknown.file, hknown.pending, ?_⟩
      show lookup (DcLearn.load s.file s.admin) a = none
      rw [hadmin, lookup_replay_nil hknown.file]
      exact AList.lookup_empty a
  | some v =>
      refine ⟨hknown.file, hknown.pending, ?_⟩
      have hr : onFile a s.file ≠ [] := hok (by rw [Settled.map hknown]; rfl)
      obtain ⟨e, he⟩ := Option.ne_none_iff_exists'.mp
        (fun hn => hr (List.getLast?_eq_none_iff.mp hn))
      show lookup (DcLearn.load s.file s.admin) a = some v
      rw [hadmin, lookup_replay]
      show ((onFile a s.file).getLast?).or _ = _
      rw [he, ← Settled.file hknown e he]
      rfl

/-- Every step that meets `StepOk` keeps the invariant. -/
theorem step_inv {a : Text} {file : FileContent} {s s' : State} {x : Action}
    (h : Inv a (firstObservation a file s.history) s) (hok : StepOk a s x)
    (hs : apply x s = some s') :
    Inv a (firstObservation a file s'.history) s' := by
  cases x with
  | insert i => exact insert_inv h hs
  | append i how =>
      have hhist : s'.history = s.history := by
        simp only [apply] at hs
        cases hl : s.pending[i]? with
        | none => simp [hl] at hs
        | some l =>
            simp only [hl] at hs
            cases hs
            rfl
      rw [hhist]
      exact append_inv h hok hs
  | load =>
      have hhist : s'.history = s.history := by
        cases hs
        rfl
      rw [hhist]
      exact load_inv h hok hs
  | learn l =>
      simp only [apply] at hs
      split at hs
      · cases hs
      · next hip =>
          split at hs
          · next hcheck =>
              cases hs
              refine ⟨?_, h.admin, ?_⟩
              · intro m hm
                rcases List.mem_append.mp hm with hm | hm
                · rcases List.mem_append.mp hm with hm | hm
                  · exact h.calls m (List.mem_append_left _ hm)
                  · rw [List.mem_singleton.mp hm]
                    exact ⟨Option.ne_none_iff_exists'.mp (by simpa using hip),
                      learnCheck_dc hcheck⟩
                · exact h.calls m (List.mem_append_right _ hm)
              · exact h.known.of_eq rfl rfl rfl
          · cases hs
            exact h

-- ============================================================== runs

/-- A new observation joins the history at its end. -/
theorem apply_history {s s' : State} {x : Action}
    (h : apply x s = some s') : ∃ ls, s'.history = s.history ++ ls := by
  cases x with
  | learn l =>
      simp only [apply] at h
      split at h
      · cases h
      · split at h <;> cases h <;> exact ⟨[], (List.append_nil _).symm⟩
  | insert i =>
      simp only [apply] at h
      split at h
      · cases h
      · next l hl =>
          split at h
          · cases h
            exact ⟨[l], rfl⟩
          · cases h
            exact ⟨[], (List.append_nil _).symm⟩
  | append i how =>
      simp only [apply] at h
      split at h
      · cases h
      · cases h
        exact ⟨[], (List.append_nil _).symm⟩
  | load =>
      cases h
      exact ⟨[], (List.append_nil _).symm⟩

/-- A first observation stays the first along a run. -/
theorem run_firstObservation {a : Text} {file : FileContent}
    {s s' : State} {xs : List Action} (hrun : run apply xs s = some s')
    {v : Int × Bool}
    (h : firstObservation a file s.history = some v) :
    firstObservation a file s'.history = some v := by
  refine run_invariant apply (C := fun _ _ => True)
    (P := fun t => firstObservation a file t.history = some v) hrun
    (fun _ _ _ _ _ _ => trivial) h ?_
  intro t x t' ht _ hx
  obtain ⟨ls, hls⟩ := apply_history hx
  rw [hls]
  unfold firstObservation firstLearnt at ht ⊢
  rw [List.find?_append]
  cases hf : (onFile a file).head? with
  | some e => rw [hf] at ht; exact ht
  | none =>
      rw [hf] at ht
      cases hl : t.history.find? fun l => l.ip == a with
      | some l => rw [hl] at ht; exact ht
      | none => rw [hl] at ht; cases ht

/-- The start, for an address the admin file does not name and whose
last line in the learned file says what the first one does. -/
theorem start_inv {a : Text} {file admin : FileContent}
    (hadmin : onFile a admin = [])
    (hlast : (onFile a file).getLast? = (onFile a file).head?) :
    Inv a (firstObservation a file []) (start file admin) := by
  have hlookup : lookup (load file admin) a
      = (replay (records file) ∅).lookup a := by
    unfold lookup
    rw [load_eq]
    exact lookup_replay_nil hadmin _
  refine ⟨?_, hadmin, ?_⟩
  · intro l hl
    cases hl
  · unfold firstObservation
    cases hf : onFile a file with
    | nil =>
        refine ⟨hf, ?_, ?_⟩
        · intro l hl
          cases hl
        · show lookup (load file admin) a = none
          rw [hlookup, lookup_replay_nil hf]
          exact AList.lookup_empty a
    | cons e es =>
        have hlast' : (onFile a file).getLast? = some e := by
          rw [hlast, hf]
          rfl
        refine ⟨?_, ?_, ?_⟩
        · intro e' he'
          exact Option.some.inj (he'.symm.trans hlast')
        · intro l hl
          cases hl
        · show lookup (load file admin) a = some e
          rw [hlookup, lookup_replay]
          show ((onFile a file).getLast?).or _ = _
          rw [hlast']
          rfl

/-- In a run from the startup load: every lookup of the address that
returns something, in whatever state on the way, returns its first
observation. -/
def FirstStands (a : Text) (file admin : FileContent)
    (xs : List Action) : Prop :=
  ∀ s, run apply xs (start file admin) = some s →
    ∀ ys zs t v, xs = ys ++ zs → run apply ys (start file admin) = some t →
      lookup t.map a = some v →
      firstObservation a file s.history = some v

/-- First observations stand: for an address outside the admin file
whose last line in the initial learned file, if it has any, says what
its first one does, along every run in which
every append writes its line whole and behind a terminated one, or
writes nothing, and no `load` comes while the map knows the address and
the learned file has no record of it. -/
theorem first_observation_stands (a : Text) (file admin : FileContent)
    (hadmin : onFile a admin = [])
    (hlast : (onFile a file).getLast? = (onFile a file).head?)
    (xs : List Action)
    (hsteps : StepsMeet apply (StepOk a) xs (start file admin)) :
    FirstStands a file admin xs := by
  intro s hrun ys zs t v hxs ht hv
  subst hxs
  obtain ⟨t', ht', hzs⟩ := run_prefix apply hrun
  rw [ht] at ht'
  cases ht'
  have hinv := run_invariant apply
    (P := fun t => Inv a (firstObservation a file t.history) t) ht
    (StepsMeet.prefix_of apply hsteps) (start_inv hadmin hlast)
    (fun _ _ _ => step_inv)
  have hknown := hinv.known
  refine run_firstObservation hzs ?_
  cases hf : firstObservation a file t.history with
  | none =>
      rw [hf] at hknown
      rw [Fresh.map hknown] at hv
      cases hv
  | some w =>
      rw [hf] at hknown
      rw [Settled.map hknown] at hv
      exact hv

def sampleAddr : Text := "203.0.113.7".toList

/-- A learn call, its line appended, a call for another address whose
append does not open the file, a reload, and a disagreeing call: the
conditions hold, and the first observation stands. -/
theorem first_observation_stands_sample :
    FirstStands sampleAddr .missing .missing
      [.learn ⟨sampleAddr, 2, false⟩, .insert 0, .append 0 .written,
        .learn ⟨"203.0.113.9".toList, 1, false⟩, .insert 0,
        .append 0 .openFailed, .load, .learn ⟨sampleAddr, 4, true⟩] := by
  refine first_observation_stands sampleAddr .missing .missing rfl rfl _
    (stepsMeet_of_meets apply ?_)
  decide +kernel

/-- A run whose last state looks the address up as something else than
its first observation. -/
theorem not_firstStands {a : Text} {file admin : FileContent}
    {xs : List Action} {v : Int × Bool}
    (h : (run apply xs (start file admin)).any (fun s =>
      lookup s.map a == some v
        && firstObservation a file s.history != some v) = true) :
    ¬ FirstStands a file admin xs := by
  intro hstands
  cases hrun : run apply xs (start file admin) with
  | none => rw [hrun] at h; cases h
  | some s =>
      rw [hrun, Option.any_some, Bool.and_eq_true, beq_iff_eq,
        bne_iff_ne] at h
      exact h.2 (hstands s hrun xs [] s v (List.append_nil xs).symm hrun h.1)

/-- Three ways to lose a first observation: a learned file with two
disagreeing lines, of which `load` keeps the last; a reload between a
`learn` call and its append, behind which a second call takes effect;
and one behind an append that did not open the file. -/
theorem first_observation_lost :
    dcFromHardcoded sampleAddr = none
    ∧ ¬ FirstStands sampleAddr
        (.text "203.0.113.7 2\n203.0.113.7 4\n".toList) .missing []
    ∧ ¬ FirstStands sampleAddr .missing .missing
        [.learn ⟨sampleAddr, 2, false⟩, .insert 0, .load,
          .learn ⟨sampleAddr, 4, true⟩, .insert 0]
    ∧ ¬ FirstStands sampleAddr .missing .missing
        [.learn ⟨sampleAddr, 2, false⟩, .insert 0, .append 0 .openFailed,
          .load, .learn ⟨sampleAddr, 4, true⟩, .insert 0] := by
  refine ⟨by decide, not_firstStands (v := (4, false)) ?_,
    not_firstStands (v := (4, true)) ?_, not_firstStands (v := (4, true)) ?_⟩
  · decide +kernel
  · decide +kernel
  · decide +kernel

end Wrtg.DcLearn

/-
The CF Proxy card shows what the daemon holds: the page reads the stats
snapshot back to the two counters and the sticky domains.

# The lines

A line is read or it is not (`Plain`): each kind of line of the snapshot
has a lemma that says what the page makes of it, and the fold over the
lines goes by kinds. No line has an end inside it, so the lines the page
splits are those that were pushed (`split_snapshot`).

# What is behind them

The counters are sums over the connections, by the daemon's own run. A
sticky domain is one a session was given for its DC and has reported
(`Reported`), so it is spelt as the page's expression wants it
(`proxyStickyDomains_spec`).
-/
import Mathlib.Data.List.Basic
import Wrtg.Proofs.CfRotation
import Wrtg.Proofs.Daemon
import Wrtg.Proofs.Settings.Lines
import Wrtg.Snapshot

namespace Wrtg.Snapshot

open Lib Stats CfProxyDomains CfBalancer

variable {w : Nat}

-- ============================================================= numbers

/-- A number is written in digits. -/
theorem showNat_isDigit {n : Nat} {c : Char} (h : c ∈ IpAddr.showNat n) :
    Text.isDigit c = true := by
  have hdigit := Nat.isDigit_of_mem_toDigits (by decide) (by decide) h
  unfold Char.isDigit at hdigit
  exact hdigit

theorem showNat_ne_nil (n : Nat) : IpAddr.showNat n ≠ [] :=
  Nat.toDigits_ne_nil

/-- A number is read back. -/
theorem parseDigits_showNat (n : Nat) :
    Text.parseDigits (IpAddr.showNat n) = some n := by
  unfold Text.parseDigits
  rw [if_neg (by rw [List.isEmpty_iff]; exact showNat_ne_nil n),
    if_pos (List.all_eq_true.mpr fun c hc => showNat_isDigit hc)]
  have hvalue := Nat.ofDigitChars_ten_toDigits (n := n)
  rw [Nat.ofDigitChars_eq_foldl] at hvalue
  simp only [Nat.mul_comm 10] at hvalue
  exact congrArg some hvalue

theorem showInt_natCast (n : Nat) :
    Text.showInt (n : Int) = IpAddr.showNat n := by
  show n.repr.toList = Nat.toDigits 10 n
  exact Nat.toList_repr

-- =============================================================== lines

/-- A line the page makes nothing of. -/
def Plain (line : Text) : Prop := ∀ h, readLine h line = h

/-- A text that starts otherwise has no such beginning. -/
theorem isPrefixOf?_eq_none {a b : Text} (rest : Text)
    (h : ((a.isPrefixOf b || b.isPrefixOf a) = false)) :
    a.isPrefixOf? (b ++ rest) = none := by
  rw [Bool.or_eq_false_iff] at h
  cases hfind : a.isPrefixOf? (b ++ rest) with
  | none => rfl
  | some t =>
      rw [List.isPrefixOf?_eq_some_iff_append_eq] at hfind
      rcases List.append_eq_append_iff.mp hfind with ⟨u, hu, _⟩ | ⟨u, hu, _⟩
      · rw [List.isPrefixOf_iff_prefix.mpr ⟨u, hu.symm⟩] at h
        cases h.1
      · rw [List.isPrefixOf_iff_prefix.mpr ⟨u, hu.symm⟩] at h
        cases h.2

theorem isPrefixOf?_append (a rest : Text) :
    a.isPrefixOf? (a ++ rest) = some rest :=
  List.isPrefixOf?_eq_some_iff_append_eq.mpr rfl

/-- Beginnings that none of the three expressions has. -/
def foreign (b : Text) : Bool :=
  ["  cf_proxy ".toList, "  cf_proxy_dial_failed ".toList,
    "  DC".toList].all fun a => !(a.isPrefixOf b || b.isPrefixOf a)

/-- A line that starts as none of the page's expressions does says nothing
to it, whatever follows. -/
theorem plain_of_foreign {b : Text} (h : foreign b = true) (rest : Text) :
    Plain (b ++ rest) := by
  simp only [foreign, List.all_cons, List.all_nil, Bool.and_true,
    Bool.and_eq_true, Bool.not_eq_true'] at h
  obtain ⟨hok, hfailed, hsticky⟩ := h
  intro health
  unfold readLine matchCounter matchSticky
  rw [isPrefixOf?_eq_none (a := "  ".toList ++ "cf_proxy".toList
      ++ " ".toList) rest hok,
    isPrefixOf?_eq_none (a := "  ".toList ++ "cf_proxy_dial_failed".toList
      ++ " ".toList) rest hfailed,
    isPrefixOf?_eq_none rest hsticky]
  rfl

/-- What the page makes of a counter's line. -/
def CfProxyHealth.counted (h : CfProxyHealth) (stat : Stat) (n : Nat) :
    CfProxyHealth :=
  match stat with
  | .cfProxy => { h with ok := n }
  | .cfProxyDialFailed => { h with failed := n }
  | _ => h

/-- The card keeps two counters, and no other touches it. -/
theorem CfProxyHealth.counted_other (h : CfProxyHealth) {stat : Stat}
    (hok : stat ≠ .cfProxy) (hfailed : stat ≠ .cfProxyDialFailed) (n : Nat) :
    h.counted stat n = h := by
  cases stat with
  | cfProxy => exact absurd rfl hok
  | cfProxyDialFailed => exact absurd rfl hfailed
  | _ => rfl

/-- The expression of a counter takes the line of that counter. -/
theorem matchCounter_self (name : Text) (n : Nat) :
    matchCounter name ("  ".toList ++ name ++ " ".toList ++ IpAddr.showNat n)
      = some n := by
  unfold matchCounter
  rw [isPrefixOf?_append]
  exact parseDigits_showNat n

/-- The one name is the beginning of the other, but the blank behind it
tells them apart. -/
theorem matchCounter_other (n : Nat) :
    matchCounter "cf_proxy".toList ("  ".toList
      ++ "cf_proxy_dial_failed".toList ++ " ".toList ++ IpAddr.showNat n)
      = none := by
  unfold matchCounter
  rw [isPrefixOf?_eq_none (IpAddr.showNat n) (by decide)]
  rfl

/-- Of the counters the page reads two. -/
theorem readLine_counter (counters : Counters w) {e : Stat × Text}
    (he : e ∈ NAMES) (h : CfProxyHealth) :
    readLine h (counterLine counters e)
      = h.counted e.1 (counters e.1).toNat := by
  have hforeign : ∀ e ∈ NAMES, e.1 ≠ .cfProxy → e.1 ≠ .cfProxyDialFailed →
      foreign ("  ".toList ++ e.2 ++ " ".toList) = true := by decide
  have hnames : ∀ e ∈ NAMES, (e.1 = .cfProxy → e.2 = "cf_proxy".toList)
      ∧ (e.1 = .cfProxyDialFailed →
        e.2 = "cf_proxy_dial_failed".toList) := by decide
  obtain ⟨stat, name⟩ := e
  by_cases hok : stat = .cfProxy
  · subst hok
    have hname := (hnames _ he).1 rfl
    simp only at hname
    subst hname
    unfold readLine counterLine
    rw [matchCounter_self]
    rfl
  · by_cases hfailed : stat = .cfProxyDialFailed
    · subst hfailed
      have hname := (hnames _ he).2 rfl
      simp only at hname
      subst hname
      unfold readLine counterLine
      rw [matchCounter_other, matchCounter_self]
      rfl
    · have hplain := plain_of_foreign (hforeign _ he hok hfailed)
        (IpAddr.showNat (counters stat).toNat)
      exact (hplain h).trans (h.counted_other hok hfailed _).symm

/-- The counters' lines leave the two the page reads. -/
theorem foldl_counters (counters : Counters w) (h : CfProxyHealth) :
    (NAMES.map (counterLine counters)).foldl readLine h
      = { h with
          ok := (counters .cfProxy).toNat
          failed := (counters .cfProxyDialFailed).toNat } := by
  rw [List.foldl_map]
  have hfold : ∀ (es : List (Stat × Text)) (h : CfProxyHealth),
      (∀ e ∈ es, e ∈ NAMES) →
      es.foldl (fun h e => readLine h (counterLine counters e)) h
        = es.foldl (fun h e => h.counted e.1 (counters e.1).toNat) h := by
    intro es
    induction es with
    | nil => exact fun _ _ => rfl
    | cons e es ih =>
        intro h hes
        rw [List.foldl_cons, List.foldl_cons,
          readLine_counter counters (hes e List.mem_cons_self)]
        exact ih _ fun e' he' => hes e' (List.mem_cons_of_mem _ he')
  rw [hfold NAMES h fun _ he => he]
  rfl

/-- A line without an `s` names no sticky domain. -/
theorem mem_of_matchSticky {line : Text} {m : Text × Text}
    (h : matchSticky line = some m) : 's' ∈ line := by
  unfold matchSticky at h
  obtain ⟨rest, hrest, h⟩ := Option.bind_eq_some_iff.mp h
  obtain ⟨domain, hdomain, _⟩ := Option.bind_eq_some_iff.mp h
  rw [List.isPrefixOf?_eq_some_iff_append_eq] at hrest hdomain
  have hs : 's' ∈ rest.drop (rest.takeWhile Text.isDigit).length := by
    rw [← hdomain]
    exact List.mem_append_left _ (by decide)
  rw [← hrest]
  exact List.mem_append_right _ (List.mem_of_mem_drop hs)

/-- No counter's expression takes a line of a data center. -/
theorem matchCounter_dc {name : Text} (rest : Text)
    (h : (("  ".toList ++ name ++ " ".toList).isPrefixOf "  DC".toList
      || "  DC".toList.isPrefixOf ("  ".toList ++ name ++ " ".toList))
        = false) :
    matchCounter name ("  DC".toList ++ rest) = none := by
  unfold matchCounter
  rw [isPrefixOf?_eq_none rest h]
  rfl

/-- So of such a line only the expression of a sticky domain is left. -/
theorem readLine_dc (h : CfProxyHealth) (rest : Text) :
    readLine h ("  DC".toList ++ rest)
      = match matchSticky ("  DC".toList ++ rest) with
        | some (dc, domain) =>
            { h with sticky := h.sticky
                       ++ ["DC".toList ++ dc ++ " → ".toList ++ domain] }
        | none => h := by
  unfold readLine
  rewrite [matchCounter_dc rest (by decide), matchCounter_dc rest (by decide)]
  rfl

theorem showInt_negSucc (m : Nat) :
    Text.showInt (Int.negSucc m) = '-' :: IpAddr.showNat (m + 1) := by
  show ("-" ++ (m + 1).repr).toList = _
  rw [String.toList_append, Nat.toList_repr]
  rfl

/-- A number has no `s`, with which `sticky` would start. -/
theorem showInt_not_s (n : Int) : 's' ∉ Text.showInt n := by
  intro hs
  cases n with
  | ofNat m =>
      rw [show Text.showInt (Int.ofNat m) = IpAddr.showNat m from
        showInt_natCast m] at hs
      exact absurd (showNat_isDigit hs) (by decide)
  | negSucc m =>
      rw [showInt_negSucc] at hs
      rcases List.mem_cons.mp hs with hs | hs
      · exact absurd hs (by decide)
      · exact absurd (showNat_isDigit hs) (by decide)

/-- The depth of a pool says nothing to the page. -/
theorem plain_slotLine (e : Int × Bool × Nat) : Plain (slotLine e) := by
  have hs : 's' ∉ slotLine e := by
    unfold slotLine
    simp only [List.mem_append, not_or]
    refine ⟨⟨⟨⟨by decide, showInt_not_s _⟩, ?_⟩, by decide⟩, ?_⟩
    · cases e.2.1 <;> decide
    · intro hs
      exact absurd (showNat_isDigit hs) (by decide)
  intro h
  have hline : slotLine e = "  DC".toList ++ (Text.showInt e.1
      ++ (if e.2.1 then "m".toList else []) ++ " ".toList
      ++ IpAddr.showNat e.2.2) := by
    unfold slotLine
    simp only [List.append_assoc]
  rw [hline, readLine_dc]
  rw [hline] at hs
  cases hm : matchSticky _ with
  | none => rfl
  | some m => exact absurd (mem_of_matchSticky hm) hs

/-- The digits of a number are taken up to what follows it. -/
theorem isDigit_takeWhile_showNat (n : Nat) (rest : Text)
    (h : ∀ c, rest.head? = some c → Text.isDigit c = false) :
    (IpAddr.showNat n ++ rest).takeWhile Text.isDigit = IpAddr.showNat n := by
  rw [List.takeWhile_append_of_pos fun c hc => showNat_isDigit hc]
  cases rest with
  | nil => exact List.append_nil _
  | cons c rest =>
      rw [List.takeWhile_cons_of_neg (by rw [h c rfl]; exact Bool.false_ne_true),
        List.append_nil]

/-- A sticky domain is read back, with its data center. -/
theorem readLine_sticky (h : CfProxyHealth) {dc : Int} {domain : Text}
    (hdc : 0 ≤ dc) (hdomain : isValidDomain domain = true) :
    readLine h (stickyLine (dc, domain))
      = { h with sticky := h.sticky
                   ++ ["DC".toList ++ Text.showInt dc ++ " → ".toList
                      ++ domain] } := by
  obtain ⟨n, rfl⟩ := Int.eq_ofNat_of_zero_le hdc
  have hblank : ' ' ∉ domain := by
    intro hmem
    rcases isValidDomain_chars hdomain _ hmem with hc | hc | hc
    · exact absurd hc (by decide)
    · exact absurd hc (by decide)
    · exact absurd hc (by decide)
  have hline : stickyLine ((n : Int), domain)
      = "  DC".toList ++ (IpAddr.showNat n ++ (" sticky ".toList ++ domain)) := by
    unfold stickyLine
    rw [showInt_natCast, List.append_assoc, List.append_assoc]
  have hmatch : matchSticky ("  DC".toList
      ++ (IpAddr.showNat n ++ (" sticky ".toList ++ domain)))
      = some (IpAddr.showNat n, domain) := by
    unfold matchSticky
    rw [isPrefixOf?_append, Option.bind_some]
    simp only
    rw [isDigit_takeWhile_showNat n (" sticky ".toList ++ domain)
      (by intro c hc; cases hc; decide), List.drop_left, isPrefixOf?_append,
      Option.bind_some, if_neg]
    simp only [Bool.or_eq_true, List.isEmpty_iff, List.contains_iff_mem,
      not_or]
    exact ⟨⟨showNat_ne_nil n, isValidDomain_ne_nil hdomain⟩, hblank⟩
  rw [hline, readLine_dc, hmatch, showInt_natCast]

-- ================================================================ fold

/-- Lines that say nothing leave the card as it is. -/
theorem foldl_plain {ls : List Text} (hls : ∀ line ∈ ls, Plain line)
    (h : CfProxyHealth) : ls.foldl readLine h = h := by
  induction ls with
  | nil => rfl
  | cons line ls ih =>
      rw [List.foldl_cons, hls line List.mem_cons_self]
      exact ih fun l hl => hls l (List.mem_cons_of_mem _ hl)

theorem plain_poolLines {label : Text} (hlabel : foreign label = true)
    (depths : List (Int × Bool × Nat)) :
    ∀ line ∈ poolLines label depths, Plain line := by
  intro line hline
  rcases List.mem_cons.mp hline with rfl | hline
  · have hplain := plain_of_foreign hlabel []
    rwa [List.append_nil] at hplain
  · split at hline
    · cases List.mem_singleton.mp hline
      exact plain_of_foreign (b := "  (no slots)".toList) (by decide) []
    · obtain ⟨e, _, rfl⟩ := List.mem_map.mp hline
      exact plain_slotLine e

theorem plain_render (bytes allocs : Nat → BitVec w) :
    ∀ line ∈ Heap.render bytes allocs, Plain line := by
  intro line hline
  rcases List.mem_cons.mp hline with rfl | hline
  · simp only [List.append_assoc]
    exact plain_of_foreign (by decide) _
  · obtain ⟨c, hc, rfl⟩ := List.mem_mapIdx.mp hline
    unfold Heap.row Heap.label
    split
    · simp only [List.append_assoc]
      rw [← List.append_assoc]
      exact plain_of_foreign (by decide) _
    · simp only [List.append_assoc]
      rw [← List.append_assoc]
      exact plain_of_foreign (by decide) _

theorem foldl_sticky {sticky : List (Int × Text)}
    (hsticky : ∀ e ∈ sticky, 0 ≤ e.1 ∧ isValidDomain e.2 = true)
    (h : CfProxyHealth) :
    (stickyLines sticky).foldl readLine h
      = { h with sticky := h.sticky ++ sticky.map fun e =>
                   "DC".toList ++ Text.showInt e.1 ++ " → ".toList ++ e.2 } := by
  have htitle : Plain "cf proxy".toList :=
    plain_of_foreign (b := "cf proxy".toList) (by decide) []
  unfold stickyLines
  rw [List.foldl_cons, htitle h]
  cases sticky with
  | nil =>
      have hnone : Plain "  (no sticky yet)".toList :=
        plain_of_foreign (b := "  (no sticky yet)".toList) (by decide) []
      show readLine h "  (no sticky yet)".toList = _
      rw [hnone h, List.map_nil, List.append_nil]
  | cons e es =>
      show ((e :: es).map stickyLine).foldl readLine h = _
      generalize e :: es = es at hsticky
      induction es generalizing h with
      | nil => rw [List.map_nil, List.map_nil, List.append_nil]; rfl
      | cons e es ih =>
          obtain ⟨hdc, hdomain⟩ := hsticky e List.mem_cons_self
          rw [List.map_cons, List.foldl_cons, readLine_sticky h hdc hdomain,
            ih _ (fun e' he' => hsticky e' (List.mem_cons_of_mem _ he')),
            List.map_cons]
          simp only [List.append_assoc, List.singleton_append]

/-- The lines of a snapshot fill the card. -/
theorem foldl_lines {s : Shown w}
    (hsticky : ∀ e ∈ proxyStickyDomains s.balancer,
      0 ≤ e.1 ∧ isValidDomain e.2 = true)
    (h : CfProxyHealth) :
    (lines s).foldl readLine h
      = { ok := (s.daemon.counters .cfProxy).toNat
          failed := (s.daemon.counters .cfProxyDialFailed).toNat
          sticky := h.sticky ++ (proxyStickyDomains s.balancer).map fun e =>
            "DC".toList ++ Text.showInt e.1 ++ " → ".toList ++ e.2 } := by
  have hversion : Plain ("wrtg ".toList ++ s.version) :=
    plain_of_foreign (by decide) _
  have hconnections : Plain ("connections active=".toList
      ++ IpAddr.showNat s.daemon.active ++ " capacity=".toList
      ++ IpAddr.showNat s.capacity) := by
    simp only [List.append_assoc]
    exact plain_of_foreign (by decide) _
  have hcounters : Plain "counters".toList :=
    plain_of_foreign (b := "counters".toList) (by decide) []
  unfold lines
  rw [List.foldl_append, List.foldl_append, List.foldl_append,
    List.foldl_append, List.foldl_cons, List.foldl_cons, List.foldl_cons,
    hversion, hconnections, hcounters, foldl_counters,
    foldl_plain (plain_poolLines (by decide) s.wsPool),
    foldl_plain (plain_poolLines (by decide) s.cfWorkerPool),
    foldl_sticky hsticky,
    foldl_plain (plain_render s.heapBytes s.heapAllocs)]

-- =============================================================== split

/-- Lines with their ends, split again. -/
theorem splitOn_flatMap {ls : List Text} (h : ∀ line ∈ ls, '\n' ∉ line) :
    Text.splitOn (· == '\n') (ls.flatMap fun line => line ++ ['\n'])
      = ls ++ [[]] := by
  induction ls with
  | nil => rfl
  | cons line ls ih =>
      have hline : ∀ c ∈ line, (c == '\n') = false := by
        intro c hc
        rw [beq_eq_false_iff_ne]
        rintro rfl
        exact h line List.mem_cons_self hc
      rw [List.flatMap_cons, List.append_assoc, List.singleton_append,
        Text.splitOn_append_cons rfl, Text.splitOn_of_not_sep hline,
        ih fun l hl => h l (List.mem_cons_of_mem _ hl)]
      rfl

/-- Trimming takes the last line end, and nothing else. -/
theorem trim_of_ends {t : Text} (hfirst : ∀ c, t.head? = some c →
      Settings.isTrimmed c = false)
    (hlast : ∀ c, t.getLast? = some c → Settings.isTrimmed c = false) :
    Settings.trim (t ++ ['\n']) = t := by
  cases t with
  | nil => rfl
  | cons c t =>
      unfold Settings.trim
      rw [List.cons_append, List.dropWhile_cons_of_neg
          (by rw [hfirst c rfl]; exact Bool.false_ne_true),
        ← List.cons_append, List.rdropWhile_concat_pos _ _ _ (by decide),
        List.rdropWhile_eq_self_iff]
      intro hne hlast'
      have hc := hlast _ (List.getLast?_eq_some_getLast hne)
      rw [hc] at hlast'
      cases hlast'

/-- The text of some lines starts as the first does, and ends with the end
of the last. -/
theorem flatMap_ends {first last : Text} (mid : List Text)
    (hfirst : first ≠ []) (hlast : last ≠ []) :
    ∃ t, (first :: mid ++ [last]).flatMap (fun line => line ++ ['\n'])
        = t ++ ['\n']
      ∧ t.head? = first.head? ∧ t.getLast? = last.getLast? := by
  refine ⟨first ++ ['\n'] ++ mid.flatMap (fun line => line ++ ['\n']) ++ last,
    ?_, ?_, ?_⟩
  · rw [List.flatMap_append, List.flatMap_cons, List.flatMap_singleton]
    simp only [List.append_assoc]
  · rw [List.append_assoc, List.append_assoc,
      List.head?_append_of_ne_nil _ hfirst]
  · exact List.getLast?_append_of_ne_nil _ hlast

theorem render_eq (bytes allocs : Nat → BitVec w) :
    ∃ init, Heap.render bytes allocs
      = init ++ [Heap.row bytes allocs 5 (2 ^ w - 1)] :=
  ⟨_ :: [Heap.row bytes allocs 0 64, Heap.row bytes allocs 1 256,
    Heap.row bytes allocs 2 1024, Heap.row bytes allocs 3 4096,
    Heap.row bytes allocs 4 16384], rfl⟩

/-- A row of the heap section ends with the unit. -/
theorem getLast?_row (bytes allocs : Nat → BitVec w) (c max : Nat) :
    (Heap.row bytes allocs c max).getLast? = some 'B' := by
  unfold Heap.row
  exact List.getLast?_append_of_ne_nil _ (List.cons_ne_nil _ _)

/-- A character that neither ends a line nor a string of the page's. -/
def clean (c : Char) : Bool := c != '\n' && c != '\x00'

theorem clean_showNat (n : Nat) : (IpAddr.showNat n).all clean = true := by
  rw [List.all_eq_true]
  intro c hc
  have hdigit := showNat_isDigit hc
  unfold clean
  rw [Bool.and_eq_true, bne_iff_ne, bne_iff_ne]
  constructor <;> rintro rfl <;> exact absurd hdigit (by decide)

theorem clean_showInt (n : Int) : (Text.showInt n).all clean = true := by
  cases n with
  | ofNat m =>
      rw [show Text.showInt (Int.ofNat m) = IpAddr.showNat m from
        showInt_natCast m]
      exact clean_showNat m
  | negSucc m =>
      rw [showInt_negSucc, List.all_cons, clean_showNat]
      rfl

/-- Nor does a domain that a pool takes. -/
theorem clean_domain {domain : Text} (h : isValidDomain domain = true) :
    domain.all clean = true := by
  rw [List.all_eq_true]
  intro c hc
  unfold clean
  rw [Bool.and_eq_true, bne_iff_ne, bne_iff_ne]
  constructor
  · rintro rfl
    rcases isValidDomain_chars h _ hc with hc | hc | hc
    · exact absurd hc (by decide)
    · exact absurd hc (by decide)
    · exact absurd hc (by decide)
  · rintro rfl
    rcases isValidDomain_chars h _ hc with hc | hc | hc
    · exact absurd hc (by decide)
    · exact absurd hc (by decide)
    · exact absurd hc (by decide)

theorem clean_poolLines {label : Text} (hlabel : label.all clean = true)
    (depths : List (Int × Bool × Nat)) :
    ∀ line ∈ poolLines label depths, line.all clean = true := by
  intro line hline
  rcases List.mem_cons.mp hline with rfl | hline
  · exact hlabel
  · split at hline
    · cases List.mem_singleton.mp hline
      decide
    · obtain ⟨e, _, rfl⟩ := List.mem_map.mp hline
      unfold slotLine
      simp only [List.all_append, Bool.and_eq_true]
      refine ⟨⟨⟨⟨by decide, clean_showInt _⟩, ?_⟩, by decide⟩,
        clean_showNat _⟩
      cases e.2.1 <;> decide

theorem clean_render (bytes allocs : Nat → BitVec w) :
    ∀ line ∈ Heap.render bytes allocs, line.all clean = true := by
  intro line hline
  rcases List.mem_cons.mp hline with rfl | hline
  · simp only [List.all_append, Bool.and_eq_true]
    exact ⟨⟨⟨⟨by decide, clean_showNat _⟩, by decide⟩, clean_showNat _⟩,
      by decide⟩
  · obtain ⟨c, hc, rfl⟩ := List.mem_mapIdx.mp hline
    unfold Heap.row Heap.label
    simp only [List.all_append, Bool.and_eq_true]
    refine ⟨⟨⟨⟨⟨⟨by decide, ?_⟩, by decide⟩, clean_showNat _⟩, by decide⟩,
      clean_showNat _⟩, by decide⟩
    split
    · decide
    · rw [List.all_append, clean_showNat, Bool.and_true]
      decide

/-- No line of a snapshot has an end, or a NUL, inside it. -/
theorem clean_lines {s : Shown w} (hversion : s.version.all clean = true)
    (hsticky : ∀ e ∈ proxyStickyDomains s.balancer,
      0 ≤ e.1 ∧ isValidDomain e.2 = true) :
    ∀ line ∈ lines s, line.all clean = true := by
  have hnames : ∀ e ∈ NAMES,
      ("  ".toList ++ e.2 ++ " ".toList).all clean = true := by decide
  intro line hline
  unfold lines at hline
  simp only [List.mem_append, List.mem_cons] at hline
  rcases hline with (((( rfl | rfl | rfl | hline) | hline) | hline) | hline)
    | hline
  · rw [List.all_append, hversion, Bool.and_true]
    decide
  · simp only [List.all_append, Bool.and_eq_true]
    exact ⟨⟨⟨by decide, clean_showNat _⟩, by decide⟩, clean_showNat _⟩
  · decide
  · obtain ⟨e, he, rfl⟩ := List.mem_map.mp hline
    unfold counterLine
    rw [List.all_append, hnames e he, clean_showNat]
    rfl
  · exact clean_poolLines (by decide) _ line hline
  · exact clean_poolLines (by decide) _ line hline
  · rcases List.mem_cons.mp hline with rfl | hline
    · decide
    · split at hline
      · cases List.mem_singleton.mp hline
        decide
      · obtain ⟨e, he, rfl⟩ := List.mem_map.mp hline
        unfold stickyLine
        simp only [List.all_append, Bool.and_eq_true]
        exact ⟨⟨⟨by decide, clean_showInt _⟩, by decide⟩,
          clean_domain (hsticky e he).2⟩
  · exact clean_render _ _ line hline

/-- What the page splits is the lines of the snapshot. -/
theorem split_snapshot {s : Shown w} (hversion : s.version.all clean = true)
    (hsticky : ∀ e ∈ proxyStickyDomains s.balancer,
      0 ≤ e.1 ∧ isValidDomain e.2 = true) :
    Settings.split '\n' (Settings.trim (snapshot s)) = lines s := by
  have hclean := clean_lines hversion hsticky
  obtain ⟨init, hinit⟩ := render_eq s.heapBytes s.heapAllocs
  have hlines : ∃ mid, lines s = ("wrtg ".toList ++ s.version) :: mid
      ++ [Heap.row s.heapBytes s.heapAllocs 5 (2 ^ w - 1)] := by
    refine ⟨("connections active=".toList ++ IpAddr.showNat s.daemon.active
        ++ " capacity=".toList ++ IpAddr.showNat s.capacity)
      :: "counters".toList :: (NAMES.map (counterLine s.daemon.counters)
        ++ (poolLines "ws pool".toList s.wsPool
          ++ (poolLines "cf worker pool".toList s.cfWorkerPool
            ++ (stickyLines (proxyStickyDomains s.balancer) ++ init)))), ?_⟩
    unfold lines
    rw [hinit]
    simp only [List.append_assoc, List.cons_append]
  obtain ⟨mid, hmid⟩ := hlines
  have hrow : Heap.row s.heapBytes s.heapAllocs 5 (2 ^ w - 1) ≠ [] := by
    intro hnil
    have hlast := getLast?_row s.heapBytes s.heapAllocs 5 (2 ^ w - 1)
    rw [hnil] at hlast
    cases hlast
  have hfirst : "wrtg ".toList ++ s.version ≠ [] :=
    List.append_ne_nil_of_left_ne_nil (by decide) s.version
  obtain ⟨t, ht, hhead, hlast⟩ := flatMap_ends mid hfirst hrow
  rw [← hmid] at ht
  have htrim : Settings.trim (snapshot s) = t := by
    rw [snapshot, ht]
    refine trim_of_ends ?_ ?_
    · intro c hc
      rw [hhead] at hc
      cases hc
      decide
    · intro c hc
      rw [hlast, getLast?_row] at hc
      cases hc
      decide
  have hline : ∀ line ∈ lines s, '\n' ∉ line := by
    intro line hl hmem
    exact absurd (List.all_eq_true.mp (hclean line hl) _ hmem) (by decide)
  have hsplit := splitOn_flatMap hline
  rw [ht, Text.splitOn_append_cons rfl] at hsplit
  have hnul : '\x00' ∉ t := by
    intro hmem
    have hmem : '\x00' ∈ (lines s).flatMap fun line => line ++ ['\n'] := by
      rw [ht]
      exact List.mem_append_left _ hmem
    obtain ⟨line, hl, hmem⟩ := List.mem_flatMap.mp hmem
    rcases List.mem_append.mp hmem with hmem | hmem
    · exact absurd (List.all_eq_true.mp (hclean line hl) _ hmem) (by decide)
    · exact absurd (List.mem_singleton.mp hmem) (by decide)
  rw [htrim, Settings.split, Settings.cString_eq hnul]
  exact List.append_cancel_right hsplit

-- ====================================================== what is shown

/-- The calls of a daemon on its balancer: the lists that are set are as
`normalize_domain_pool` makes them, and a session reports a domain it was
given for its DC, which is no negative number. -/
structure Reported (calls : List Pools.Call) : Prop where
  pools : ∀ domains, .setProxyDomains domains ∈ calls →
    ∃ raw, domains = normalizeDomainPool raw
  sessions : ∀ (i : Nat) (dc : Int) (domain : Text),
    calls[i]? = some (Pools.Call.updateProxyDomainForDc dc domain) →
      0 ≤ dc ∧ ∃ j < i, ∃ out,
        calls[j]? = some (Pools.Call.proxyDomainsForDc dc)
          ∧ (feed Pools.call Pools.empty calls).1[j]? = some (some out)
          ∧ domain ∈ out

/-- A domain that a session is given is a valid one, as the pools hold
it. -/
theorem given_valid {calls : List Pools.Call}
    (h : Reported calls) {j : Nat} {dc : Int} {out : List Text}
    {domain : Text}
    (hcall : calls[j]? = some (Pools.Call.proxyDomainsForDc dc))
    (hout : (feed Pools.call Pools.empty calls).1[j]? = some (some out))
    (hdomain : domain ∈ out) : Host domain ∧ isValidDomain domain = true := by
  have hpools : ∀ domains, .setProxyDomains domains ∈ calls.take j →
      ∃ raw, domains = normalizeDomainPool raw :=
    fun domains hmem => h.pools domains (List.mem_of_mem_take hmem)
  obtain ⟨raw, hraw⟩ := proxiesSet_normalized hpools
  have hpool : (feed Pools.call Pools.empty (calls.take j)).2.proxyDomains
      = normalizeDomainPool raw :=
    (feed_leaves Pools.empty (calls.take j)).2.1.trans hraw
  rw [feed_getElem? _ _ hcall] at hout
  have hgiven : ((feed Pools.call Pools.empty
      (calls.take j)).2.proxyDomainsForDc dc).1 = out :=
    Option.some.inj (Option.some.inj hout)
  have hperm := proxyDomainsForDc_perm
    (hpool ▸ normalizeDomainPool_nodup raw) dc
  rw [hgiven, hpool] at hperm
  have hmem := hperm.mem_iff.mp hdomain
  exact ⟨host_of_mem_normalizeDomainPool hmem,
    isValidDomain_of_mem_normalizeDomainPool hmem⟩

/-- The sticky domains that are shown: each DC's last success, by DC. -/
theorem proxyStickyDomains_spec (calls : List Pools.Call) :
    let shown := proxyStickyDomains (feed Pools.call Pools.empty calls).2
    shown.Pairwise (fun a b => a.1 < b.1)
      ∧ ∀ dc domain, (dc, domain) ∈ shown
        ↔ lastSuccess dc calls = some domain := by
  intro shown
  have hperm : shown.Perm _ := List.mergeSort_perm _ _
  have hlookup := (feed_leaves Pools.empty calls).2.2
  revert shown hperm hlookup
  generalize (feed Pools.call Pools.empty calls).2 = b
  intro shown hperm hlookup
  refine ⟨?_, fun dc domain => ?_⟩
  · have hsorted : shown.Pairwise fun a b => a.1 ≤ b.1 := by
      let le : Int × Text → Int × Text → Bool := fun a b => decide (a.1 ≤ b.1)
      have htrans : ∀ a b c, le a b → le b c → le a c := by
        intro a b c hab hbc
        simp only [le, decide_eq_true_eq] at hab hbc ⊢
        exact hab.trans hbc
      have htotal : ∀ a b, le a b || le b a := by
        intro a b
        simpa [le] using Int.le_total a.1 b.1
      have hmerge := List.pairwise_mergeSort htrans htotal
        (b.dcProxySticky.entries.map fun e => (e.1, e.2))
      exact hmerge.imp fun hle => by simpa [le] using hle
    have hnodup : shown.Pairwise fun a b => a.1 ≠ b.1 := by
      have hkeys : (shown.map Prod.fst).Nodup := by
        rw [(hperm.map Prod.fst).nodup_iff, List.map_map]
        exact b.dcProxySticky.nodupKeys
      rw [List.nodup_iff_pairwise_ne, List.pairwise_map] at hkeys
      exact hkeys
    exact (hsorted.and hnodup).imp fun h => lt_of_le_of_ne h.1 h.2
  · have hlast : b.dcProxySticky.lookup dc = lastSuccess dc calls :=
      hlookup dc
    rw [hperm.mem_iff, ← hlast, List.mem_map]
    constructor
    · rintro ⟨⟨dc', domain'⟩, hmem, heq⟩
      cases heq
      exact AList.mem_lookup_iff.mpr hmem
    · intro hfound
      exact ⟨⟨dc, domain⟩, AList.mem_lookup_iff.mp hfound, rfl⟩

/-- A sticky domain is spelt as the page's expression wants it. -/
theorem sticky_clean {calls : List Pools.Call} (h : Reported calls) :
    ∀ e ∈ proxyStickyDomains (feed Pools.call Pools.empty calls).2,
      0 ≤ e.1 ∧ isValidDomain e.2 = true := by
  rintro ⟨dc, domain⟩ he
  obtain ⟨i, reported, hcall, hdomain⟩ := lastSuccess_reported
    (((proxyStickyDomains_spec calls).2 dc domain).mp he)
  obtain ⟨hdc, j, -, out, hgiven, hout, hmem⟩ :=
    h.sessions i dc reported hcall
  obtain ⟨hhost, hvalid⟩ := given_valid h hgiven hout hmem
  rw [hhost.trim, hhost.lower] at hdomain
  exact ⟨hdc, hdomain ▸ hvalid⟩

/-- The card shows what the daemon holds. In every run of the daemon and
for all calls its sessions have made on the balancer, whatever the depths
of the pools, the state of the heap and a version that is one line, the
page reads from the snapshot's text how often a connection of the CF
Proxy rung has been made and how often a dial of it has failed, as words,
and the sticky domains, in the order of the DCs: of each DC the last
success, if all its candidates have not failed since. -/
theorem status_reads_snapshot (cap now : Nat) (xs : List Daemon.Action)
    (calls : List Pools.Call) (hcalls : Reported calls) (s : Shown w)
    (hrun : run Daemon.apply xs (Daemon.start w cap now) = some s.daemon)
    (hbalancer : s.balancer = (feed Pools.call Pools.empty calls).2)
    (hversion : s.version.all clean = true) :
    readStatus (snapshot s)
        = { ok := s.daemon.times .cfProxy % 2 ^ w
            failed := s.daemon.times .cfProxyDialFailed % 2 ^ w
            sticky := (proxyStickyDomains s.balancer).map fun e =>
              "DC".toList ++ Text.showInt e.1 ++ " → ".toList ++ e.2 }
      ∧ (proxyStickyDomains s.balancer).Pairwise (fun a b => a.1 < b.1)
      ∧ ∀ dc domain, (dc, domain) ∈ proxyStickyDomains s.balancer
        ↔ lastSuccess dc calls = some domain := by
  have hsticky := sticky_clean hcalls
  have hspec := proxyStickyDomains_spec calls
  rw [← hbalancer] at hsticky hspec
  refine ⟨?_, hspec⟩
  have harray := (Daemon.counted_run hrun).array
  unfold readStatus
  rw [split_snapshot hversion hsticky, foldl_lines hsticky, harray, harray,
    BitVec.toNat_ofNat, BitVec.toNat_ofNat]
  rfl

-- ============================================================== sample

/-- A pool, a session of DC 5 and one of DC 1, each with a success. -/
def sampleCalls : List Pools.Call :=
  [.setProxyDomains (normalizeDomainPool
      ["a.example.com".toList, "b.example.com".toList]),
    .proxyDomainsForDc 5, .updateProxyDomainForDc 5 "b.example.com".toList,
    .proxyDomainsForDc 1, .updateProxyDomainForDc 1 "a.example.com".toList]

/-- The sample session reports what it was handed out. -/
theorem sampleCalls_reported : Reported sampleCalls := by
  refine ⟨fun domains hmem => ?_, fun i dc domain hcall => ?_⟩
  · simp only [sampleCalls, List.mem_cons, List.not_mem_nil, or_false,
      reduceCtorEq] at hmem
    cases hmem
    exact ⟨_, rfl⟩
  · match i, hcall with
    | 2, hcall =>
        cases hcall
        exact ⟨by decide, 1, by decide, _, rfl, rfl, by decide +kernel⟩
    | 4, hcall =>
        cases hcall
        exact ⟨by decide, 3, by decide, _, rfl, rfl, by decide +kernel⟩
    | n + 5, hcall => cases hcall

/-- One session on the race, whose first domain fails and whose second
connects. -/
def sampleRun : List Daemon.Action :=
  [.acquired, .accepted "192.168.1.1".toList 443, .turn 0 .poll,
    .turn 0 (.session (.conn false)),
    .turn 0 (.session (.init (.parsed ⟨5, false, true, true, []⟩))),
    .turn 0 (.session (.cfFallback false)),
    .turn 0 (.session (.workerPool false [])),
    .turn 0 (.session (.proxies
      ["a.example.com".toList, "b.example.com".toList])),
    .turn 0 (.session (.race (.primary .failed))),
    .turn 0 (.session (.race (.finish 0 .connected)))]

def sampleShown (daemon : Daemon.State 32) : Shown 32 where
  version := "1.3.1".toList
  daemon := daemon
  capacity := 512
  wsPool := [(2, false, 4)]
  cfWorkerPool := []
  balancer := (feed Pools.call Pools.empty sampleCalls).2
  heapBytes := fun _ => 4096
  heapAllocs := fun _ => 9

theorem status_reads_snapshot_sample :
    ∃ daemon,
      run Daemon.apply sampleRun (Daemon.start 32 512 0) = some daemon
        ∧ (readStatus (snapshot (sampleShown daemon))).ok
          = daemon.times .cfProxy % 2 ^ 32
        ∧ (5, "b.example.com".toList)
          ∈ proxyStickyDomains (sampleShown daemon).balancer := by
  have hsome : (run Daemon.apply sampleRun
      (Daemon.start 32 512 0)).isSome = true := by decide +kernel
  obtain ⟨daemon, hrun⟩ := Option.isSome_iff_exists.mp hsome
  obtain ⟨hread, -, hsticky⟩ := status_reads_snapshot 512 0 sampleRun
    sampleCalls sampleCalls_reported (sampleShown daemon) hrun rfl
    (show "1.3.1".toList.all clean = true by decide)
  refine ⟨daemon, hrun, by rw [hread]; rfl, (hsticky 5 _).mpr ?_⟩
  decide +kernel

end Wrtg.Snapshot

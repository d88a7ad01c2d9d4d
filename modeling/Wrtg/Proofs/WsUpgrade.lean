/-
What an upgrade handshake reads and accepts (`ws.rs`,
`connect_ws_inner`).

# What is read

A `Head` is a status line, header lines and a blank line, within the two
limits. The reader takes a head and not a byte more (`readResponse_head`), and
its map of headers is what the lines say, the values of one name joined
by commas (`lookup_headers`).

# What is left

Whatever comes, not more is taken than the two limits and a byte
(`Takes`), and a reader that makes no head of it ends in a fault that is
no answer of the server (`Broken`). A line is at least a byte, so the
fuel of the header loop lasts.
-/
import Wrtg.WsUpgrade

namespace Wrtg.WsUpgrade

open Lib Ws

-- ============================================================== lines

/-- Bytes up to and including the first line feed. -/
def IsLine (line : Bytes) : Prop := ∃ body, 0x0A ∉ body ∧ line = body ++ [0x0A]

/-- A line that fits is taken whole, with what was read of it before. -/
theorem readLineGo_line {ending : ReadErr} {maxLen : Nat} {body : Bytes}
    (h : 0x0A ∉ body) {buf : Bytes}
    (hfits : buf.length + body.length + 1 ≤ maxLen) (rest : Bytes) :
    readLineGo ending maxLen buf (body ++ 0x0A :: rest)
      = .ok (buf ++ body ++ [0x0A]) rest := by
  induction body generalizing buf with
  | nil =>
      rw [List.length_nil] at hfits
      rw [List.nil_append, readLineGo,
        if_neg (by rw [List.length_append, List.length_singleton]; omega),
        if_pos rfl, List.append_nil]
  | cons b body ih =>
      rw [List.length_cons] at hfits
      have hb : b ≠ 0x0A := fun hb => h (hb ▸ List.mem_cons_self)
      rw [List.cons_append, readLineGo,
        if_neg (by rw [List.length_append, List.length_singleton]; omega),
        if_neg hb,
        ih (fun hm => h (List.mem_cons_of_mem b hm))
          (by rw [List.length_append, List.length_singleton]; omega)]
      simp only [List.append_assoc, List.singleton_append]

/-- What is taken is up to the first line feed, within the limit. -/
theorem readLineGo_ok {ending : ReadErr} {maxLen : Nat} {buf s line rest : Bytes}
    (h : readLineGo ending maxLen buf s = .ok line rest) :
    ∃ body, 0x0A ∉ body ∧ line = buf ++ body ++ [0x0A]
      ∧ s = body ++ 0x0A :: rest ∧ line.length ≤ maxLen := by
  induction s generalizing buf with
  | nil => cases h
  | cons b s ih =>
      rw [readLineGo] at h
      split at h
      · cases h
      · next hfits =>
        split at h
        · next hb =>
          cases h
          exact ⟨[], List.not_mem_nil, by rw [List.append_nil, hb],
            by rw [hb, List.nil_append], Nat.le_of_not_lt hfits⟩
        · next hb =>
          obtain ⟨body, hbody, hline, hs, hlen⟩ := ih h
          refine ⟨b :: body, ?_, ?_, by rw [hs, List.cons_append], hlen⟩
          · intro hm
            rcases List.mem_cons.mp hm with hm | hm
            · exact hb hm.symm
            · exact hbody hm
          · rw [hline, List.append_assoc buf, List.singleton_append]

/-- A line is read iff it comes next and fits. -/
theorem readLine_iff {ending : ReadErr} {s line rest : Bytes} :
    readLine ending s = .ok line rest
      ↔ IsLine line ∧ line.length ≤ MAX_HTTP_LINE ∧ s = line ++ rest := by
  constructor
  · intro h
    unfold readLine at h
    split at h
    · next hgo =>
      cases h
      obtain ⟨body, hbody, hline, hs, hlen⟩ := readLineGo_ok hgo
      rw [List.nil_append] at hline
      refine ⟨⟨body, hbody, hline⟩, hlen, ?_⟩
      rw [hs, hline, List.append_assoc, List.singleton_append]
    · cases h
  · rintro ⟨⟨body, hbody, rfl⟩, hlen, rfl⟩
    unfold readLine
    rw [List.length_append, List.length_singleton] at hlen
    rw [List.append_assoc, List.singleton_append,
      readLineGo_line hbody (by rw [List.length_nil]; omega),
      List.nil_append]

/-- A line that cannot be read is one of the two faults of a read. -/
theorem readLine_error {ending : ReadErr} {s rest : Bytes} {e : Fault}
    (h : readLine ending s = .error e rest) :
    ∃ r, e = .ws (mapReadErr r) := by
  unfold readLine at h
  split at h
  · cases h
  · cases h
    exact ⟨_, rfl⟩

theorem IsLine.ne_nil {line : Bytes} (h : IsLine line) : line ≠ [] := by
  obtain ⟨body, _, rfl⟩ := h
  simp

-- ============================================================ headers

/-- The values of a name, joined. -/
def combined (fields : List (Text × Text)) (name : Text) : Option Text :=
  match (fields.filter (·.1 = name)).map Prod.snd with
  | [] => none
  | value :: values => some (value ++ values.flatMap (',' :: ·))

/-- One more header: its value goes behind a comma where the name is known.
-/
theorem lookup_addHeader (headers : Headers) (name value k : Text) :
    (addHeader headers name value).lookup k
      = if k = name then
          match headers.lookup name with
          | some old => some (old ++ ',' :: value)
          | none => some value
        else headers.lookup k := by
  unfold addHeader
  by_cases hk : k = name
  · subst hk
    rw [if_pos rfl]
    cases headers.lookup k with
    | none => exact AList.lookup_insert headers
    | some old => exact AList.lookup_insert headers
  · rw [if_neg hk]
    cases headers.lookup name with
    | none => exact AList.lookup_insert_ne hk
    | some old => exact AList.lookup_insert_ne hk

/-- So the values of a name come out in order, the first without a comma. -/
theorem lookup_addHeaders (fields : List (Text × Text)) (headers : Headers)
    (name : Text) :
    (fields.foldl (fun hs f => addHeader hs f.1 f.2) headers).lookup name
      = match headers.lookup name with
        | some old => some (old
            ++ ((fields.filter (·.1 = name)).map Prod.snd).flatMap (',' :: ·))
        | none => combined fields name := by
  induction fields generalizing headers with
  | nil =>
      rw [List.foldl_nil]
      cases headers.lookup name with
      | none => rfl
      | some old => simp
  | cons f fields ih =>
      rw [List.foldl_cons, ih, lookup_addHeader]
      by_cases hf : f.1 = name
      · rw [if_pos hf.symm, hf]
        cases headers.lookup name with
        | none => simp [combined, hf]
        | some old => simp [hf]
      · rw [if_neg fun h => hf h.symm]
        cases headers.lookup name with
        | none => simp [combined, hf]
        | some old => simp [hf]

-- =============================================================== heads

/-- A header line: not the blank one, and with a colon in it. -/
structure FieldLine (line : Bytes) : Prop where
  isLine : IsLine line
  fits : line.length ≤ MAX_HTTP_LINE
  not_blank : ¬ (line = [0x0D, 0x0A] ∨ line = [0x0A])
  field : (splitHeader line).isSome

/-- The head of a response, within the limits of the reader. -/
structure Head where
  status : Bytes
  fields : List Bytes
  blank : Bytes
  status_line : IsLine status
  status_fits : status.length ≤ MAX_HTTP_LINE
  field_lines : ∀ line ∈ fields, FieldLine line
  blank_line : blank = [0x0D, 0x0A] ∨ blank = [0x0A]
  fits : status.length + fields.flatten.length + blank.length
    ≤ MAX_HTTP_HEADERS

/-- What a server sends of a head. -/
def Head.bytes (h : Head) : Bytes := h.status ++ h.fields.flatten ++ h.blank

/-- What the reader makes of header lines. -/
def collect (headers : Headers) (lines : List Bytes) : Headers :=
  (lines.filterMap splitHeader).foldl (fun hs f => addHeader hs f.1 f.2)
    headers

/-- The map that is made of the lines. -/
def Head.headers (h : Head) : Headers := collect ∅ h.fields

/-- The value of a header: of all its lines, joined by commas. -/
def Head.value (h : Head) (name : String) : Option Text :=
  combined (h.fields.filterMap splitHeader) name.toList

/-- The map says of a name what the lines do. -/
theorem lookup_headers (h : Head) (name : String) :
    h.headers.lookup name.toList = h.value name := by
  unfold Head.headers collect Head.value
  rw [lookup_addHeaders]
  rfl

theorem blank_isLine {blank : Bytes}
    (h : blank = [0x0D, 0x0A] ∨ blank = [0x0A]) :
    IsLine blank ∧ blank.length ≤ MAX_HTTP_LINE := by
  rcases h with rfl | rfl
  · exact ⟨⟨[0x0D], by decide, rfl⟩, by decide⟩
  · exact ⟨⟨[], by decide, rfl⟩, by decide⟩

/-- One round of the header loop, behind a line that was read. -/
theorem readHeaders_succ {ending : ReadErr} {fuel n : Nat} {headers : Headers}
    {s line rest : Bytes} (hline : readLine ending s = .ok line rest) :
    readHeaders ending (fuel + 1) n headers s
      = if n + line.length > MAX_HTTP_HEADERS then
          .error (.ws (invalidData "WebSocket response headers too large"))
            rest
        else if line = [0x0D, 0x0A] ∨ line = [0x0A] then .ok headers rest
        else match splitHeader line with
          | none =>
              .error (.ws (invalidData "malformed WebSocket response header"))
                rest
          | some (name, value) =>
              readHeaders ending fuel (n + line.length)
                (addHeader headers name value) rest := by
  rw [readHeaders]
  simp only [bind, EStateM.bind, hline]
  split
  · rfl
  · split
    · rfl
    · cases splitHeader line with
      | none => rfl
      | some r => rfl

/-- Header lines and the blank line behind them are taken. -/
theorem readHeaders_lines {ending : ReadErr} {lines : List Bytes}
    {blank : Bytes} (hlines : ∀ line ∈ lines, FieldLine line)
    (hblank : blank = [0x0D, 0x0A] ∨ blank = [0x0A]) {fuel n : Nat}
    (hfuel : lines.length < fuel)
    (hfits : n + lines.flatten.length + blank.length ≤ MAX_HTTP_HEADERS)
    (headers : Headers) (rest : Bytes) :
    readHeaders ending fuel n headers (lines.flatten ++ blank ++ rest)
      = .ok (collect headers lines) rest := by
  induction lines generalizing fuel n headers with
  | nil =>
      obtain ⟨fuel, rfl⟩ : ∃ k, fuel = k + 1 :=
        ⟨fuel - 1, by rw [List.length_nil] at hfuel; omega⟩
      obtain ⟨hline, hlen⟩ := blank_isLine hblank
      rw [List.flatten_nil, List.length_nil] at hfits
      rw [List.flatten_nil, List.nil_append,
        readHeaders_succ (readLine_iff.mpr ⟨hline, hlen, rfl⟩),
        if_neg (by omega), if_pos hblank]
      rfl
  | cons line lines ih =>
      obtain ⟨fuel, rfl⟩ : ∃ k, fuel = k + 1 :=
        ⟨fuel - 1, by rw [List.length_cons] at hfuel; omega⟩
      have hfield := hlines line List.mem_cons_self
      obtain ⟨⟨name, value⟩, hsplit⟩ := Option.isSome_iff_exists.mp hfield.field
      rw [List.length_cons] at hfuel
      rw [List.flatten_cons, List.length_append] at hfits
      rw [List.flatten_cons, List.append_assoc, List.append_assoc,
        readHeaders_succ (readLine_iff.mpr ⟨hfield.isLine, hfield.fits, rfl⟩),
        if_neg (by omega), if_neg hfield.not_blank, hsplit]
      simp only
      rw [← List.append_assoc,
        ih (fun l hl => hlines l (List.mem_cons_of_mem line hl))
          (by omega) (by omega)]
      unfold collect
      rw [List.filterMap_cons_some hsplit, List.foldl_cons]

/-- And only these: what is read is header lines up to a blank one. -/
theorem readHeaders_ok {ending : ReadErr} {fuel n : Nat}
    {headers headers' : Headers} {s rest : Bytes}
    (h : readHeaders ending fuel n headers s = .ok headers' rest) :
    ∃ lines blank, (∀ line ∈ lines, FieldLine line)
      ∧ (blank = [0x0D, 0x0A] ∨ blank = [0x0A])
      ∧ n + lines.flatten.length + blank.length ≤ MAX_HTTP_HEADERS
      ∧ s = lines.flatten ++ blank ++ rest
      ∧ headers' = collect headers lines := by
  induction fuel generalizing n headers s with
  | zero => cases h
  | succ fuel ih =>
      cases hline : readLine ending s with
      | error e s' =>
          rw [readHeaders] at h
          simp only [bind, EStateM.bind, hline] at h
          cases h
      | ok line s' =>
          obtain ⟨hisLine, hlen, rfl⟩ := readLine_iff.mp hline
          rw [readHeaders_succ hline] at h
          split at h
          · cases h
          next hfits =>
          split at h
          · next hblank =>
            cases h
            refine ⟨[], line, nofun, hblank, ?_, rfl, rfl⟩
            rw [List.flatten_nil, List.length_nil]
            omega
          next hnot =>
          split at h
          · cases h
          · next name value hsplit =>
            obtain ⟨lines, blank, hlines, hblank, hsum, rfl, rfl⟩ := ih h
            refine ⟨line :: lines, blank, ?_, hblank, ?_, ?_, ?_⟩
            · intro l hl
              rcases List.mem_cons.mp hl with rfl | hl
              · exact ⟨hisLine, hlen, hnot, by rw [hsplit]; rfl⟩
              · exact hlines l hl
            · rw [List.flatten_cons, List.length_append]
              omega
            · simp only [List.flatten_cons, List.append_assoc]
            · unfold collect
              rw [List.filterMap_cons_some hsplit, List.foldl_cons]

-- ============================================================= what is left

/-- What a reader has not read when it is done, well or badly. -/
def unread {ε α : Type} : EStateM.Result ε Bytes α → Bytes
  | .ok _ rest => rest
  | .error _ rest => rest

/-- At most `k` bytes are gone. -/
def Takes (k : Nat) (s rest : Bytes) : Prop :=
  ∃ taken, s = taken ++ rest ∧ taken.length ≤ k

theorem Takes.refl (k : Nat) (s : Bytes) : Takes k s s :=
  ⟨[], rfl, Nat.zero_le k⟩

/-- A line that was taken adds its length to what is taken. -/
theorem Takes.after {k : Nat} {s rest : Bytes} (line : Bytes) (h : Takes k s rest) :
    Takes (line.length + k) (line ++ s) rest := by
  obtain ⟨taken, rfl, hlen⟩ := h
  refine ⟨line ++ taken, (List.append_assoc ..).symm, ?_⟩
  rw [List.length_append]
  omega

theorem Takes.mono {j k : Nat} {s rest : Bytes} (h : Takes j s rest)
    (hjk : j ≤ k) : Takes k s rest := by
  obtain ⟨taken, hs, hlen⟩ := h
  exact ⟨taken, hs, Nat.le_trans hlen hjk⟩

/-- A line takes no more than the limit and the byte that is over it. -/
theorem readLineGo_takes (ending : ReadErr) (maxLen : Nat) (buf s : Bytes)
    (h : buf.length ≤ maxLen) :
    Takes (maxLen + 1 - buf.length) s
      (unread (readLineGo ending maxLen buf s)) := by
  induction s generalizing buf with
  | nil => exact .refl _ _
  | cons b s ih =>
      have hlen : (buf ++ [b]).length = buf.length + 1 := List.length_append
      have hone : Takes (maxLen + 1 - buf.length) (b :: s) s :=
        ⟨[b], rfl, by rw [List.length_singleton]; omega⟩
      rw [readLineGo]
      split
      · exact hone
      · split
        · exact hone
        · have hrest := (ih (buf ++ [b]) (by omega)).after [b]
          rw [List.length_singleton] at hrest
          exact hrest.mono (by omega)

theorem readLine_takes (ending : ReadErr) (s : Bytes) :
    Takes (MAX_HTTP_LINE + 1) s (unread (readLine ending s)) := by
  have h := readLineGo_takes ending MAX_HTTP_LINE [] s (Nat.zero_le _)
  unfold readLine
  cases hgo : readLineGo ending MAX_HTTP_LINE [] s with
  | ok line rest =>
      rw [hgo] at h
      exact h
  | error e rest =>
      rw [hgo] at h
      exact h

/-- The headers take no more than their limit, and a line that is over it.
-/
theorem readHeaders_takes (ending : ReadErr) (fuel : Nat) {n : Nat}
    (headers : Headers) (s : Bytes) (hn : n ≤ MAX_HTTP_HEADERS) :
    Takes (MAX_HTTP_HEADERS + MAX_HTTP_LINE + 1 - n) s
      (unread (readHeaders ending fuel n headers s)) := by
  induction fuel generalizing n headers s with
  | zero => exact .refl _ _
  | succ fuel ih =>
      have hone := readLine_takes ending s
      cases hline : readLine ending s with
      | error e s' =>
          rw [hline] at hone
          rw [readHeaders]
          simp only [bind, EStateM.bind, hline]
          exact hone.mono (by omega)
      | ok line s' =>
          rw [hline] at hone
          obtain ⟨_, _, rfl⟩ := readLine_iff.mp hline
          have hone := hone.mono
            (show _ ≤ MAX_HTTP_HEADERS + MAX_HTTP_LINE + 1 - n by omega)
          rw [readHeaders_succ hline]
          split
          · exact hone
          · split
            · exact hone
            · split
              · exact hone
              · exact ((ih _ s' (by omega)).after line).mono
                  (by omega)

-- ========================================================= the response

variable (accept : Text → Text) (wsKey : Text)

/-- The server has switched to the WebSocket this client asked for. -/
structure Upgraded (h : Head) : Prop where
  switched : statusCode h.status = 101
  upgrade : ∃ v, h.value "upgrade" = some v
    ∧ Text.toAsciiLowercase v = "websocket".toList
  connection : ∃ v, h.value "connection" = some v
    ∧ ∃ token ∈ Text.splitOn (· == ',') v,
      Text.toAsciiLowercase (Text.trim token) = "upgrade".toList
  accepted : h.value "sec-websocket-accept" = some (accept wsKey)

/-- The response is accepted iff the head says all that is asked of it. -/
theorem checkResponse_ok (h : Head) :
    checkResponse accept wsKey h.status h.headers = .ok ()
      ↔ Upgraded accept wsKey h := by
  have hupgrade : upgradeOk h.headers = true
      ↔ ∃ v, h.value "upgrade" = some v
        ∧ Text.toAsciiLowercase v = "websocket".toList := by
    unfold upgradeOk
    rw [lookup_headers, Option.any_eq_true]
    simp only [Text.eqIgnoreAsciiCase, beq_iff_eq]
    rfl
  have hconnection : connectionOk h.headers = true
      ↔ ∃ v, h.value "connection" = some v
        ∧ ∃ token ∈ Text.splitOn (· == ',') v,
          Text.toAsciiLowercase (Text.trim token) = "upgrade".toList := by
    unfold connectionOk
    rw [lookup_headers, Option.any_eq_true]
    simp only [Text.eqIgnoreAsciiCase, beq_iff_eq, List.any_eq_true]
    rfl
  have haccept : acceptOk accept wsKey h.headers = true
      ↔ h.value "sec-websocket-accept" = some (accept wsKey) := by
    unfold acceptOk
    rw [lookup_headers, Option.any_eq_true]
    simp only [beq_iff_eq, exists_eq_right]
  unfold checkResponse
  constructor
  · intro hok
    split at hok
    · cases hok
    next hcode =>
    split at hok
    · cases hok
    next hagreed =>
    simp only [Bool.or_eq_true, Bool.not_eq_true', not_or,
      Bool.not_eq_false] at hagreed
    exact
      { switched := not_not.mp hcode
        upgrade := hupgrade.mp hagreed.1.1
        connection := hconnection.mp hagreed.1.2
        accepted := haccept.mp hagreed.2 }
  · intro hup
    rw [if_neg (not_not_intro hup.switched), hupgrade.mpr hup.upgrade,
      hconnection.mpr hup.connection, haccept.mpr hup.accepted]
    rfl

/-- A handshake error is a status other than 101, with the headers kept. -/
theorem checkResponse_handshake (h : Head) (e : WsHandshakeError) :
    checkResponse accept wsKey h.status h.headers = .error (.handshake e)
      ↔ statusCode h.status ≠ 101
        ∧ e = { statusCode := statusCode h.status, headers := h.headers } := by
  unfold checkResponse
  split
  · next hcode =>
    constructor
    · intro h
      cases h
      exact ⟨hcode, rfl⟩
    · rintro ⟨_, rfl⟩
      rfl
  · next hcode =>
    constructor
    · intro h
      split at h
      · cases h
      · cases h
    · exact fun h => absurd h.1 hcode

/-- What comes of a response that has its head. -/
def outcome (h : Head) (rest : Bytes) : EStateM.Result Fault Bytes Unit :=
  match checkResponse accept wsKey h.status h.headers with
  | .ok () => .ok () rest
  | .error e => .error (.ws e) rest

/-- There are no more lines than bytes, which is why the fuel lasts. -/
theorem length_flatten_fields {lines : List Bytes}
    (h : ∀ line ∈ lines, FieldLine line) :
    lines.length ≤ lines.flatten.length := by
  induction lines with
  | nil => exact Nat.le_refl 0
  | cons line lines ih =>
      have hpos := List.length_pos_iff.mpr
        (h line List.mem_cons_self).isLine.ne_nil
      have ih := ih fun l hl => h l (List.mem_cons_of_mem line hl)
      rw [List.length_cons, List.flatten_cons, List.length_append]
      omega

/-- On a head, the outcome is what the head says. -/
theorem readResponse_head (ending : ReadErr) (h : Head) (rest : Bytes) :
    readResponse accept wsKey ending (h.bytes ++ rest)
      = outcome accept wsKey h rest := by
  have hstatus : readLine ending (h.bytes ++ rest)
      = .ok h.status (h.fields.flatten ++ h.blank ++ rest) := by
    refine readLine_iff.mpr ⟨h.status_line, h.status_fits, ?_⟩
    unfold Head.bytes
    simp only [List.append_assoc]
  have hfields := length_flatten_fields h.field_lines
  unfold readResponse outcome Head.headers
  simp only [bind, EStateM.bind, hstatus]
  rw [readHeaders_lines h.field_lines h.blank_line
    (by simp only [List.length_append]; omega) h.fits]
  simp only
  cases checkResponse accept wsKey h.status (collect ∅ h.fields) with
  | ok u => rfl
  | error e => rfl

/-- Every other response fails, and not as a refusal of the server. -/
def Broken {α : Type} : EStateM.Result Fault Bytes α → Prop
  | .ok _ _ => False
  | .error (.ws e) _ => e.httpStatus = none
  | .error .outOfFuel _ => False

theorem readLine_broken {ending : ReadErr} {s rest : Bytes} {e : Fault}
    (h : readLine ending s = .error e rest) {α : Type} :
    Broken (.error e rest : EStateM.Result Fault Bytes α) := by
  obtain ⟨r, rfl⟩ := readLine_error h
  cases r <;> rfl

/-- A header loop that ends without a map ends in a fault that is no answer.
-/
theorem readHeaders_broken {ending : ReadErr} {fuel n : Nat}
    {headers : Headers} {s rest : Bytes} {e : Fault}
    (h : readHeaders ending fuel n headers s = .error e rest)
    (hfuel : s.length < fuel) {α : Type} :
    Broken (.error e rest : EStateM.Result Fault Bytes α) := by
  induction fuel generalizing n headers s with
  | zero => omega
  | succ fuel ih =>
      cases hline : readLine ending s with
      | error e' s' =>
          rw [readHeaders] at h
          simp only [bind, EStateM.bind, hline] at h
          cases h
          exact readLine_broken hline
      | ok line s' =>
          obtain ⟨hisLine, _, rfl⟩ := readLine_iff.mp hline
          have hpos := List.length_pos_iff.mpr hisLine.ne_nil
          rw [List.length_append] at hfuel
          rw [readHeaders_succ hline] at h
          split at h
          · cases h
            rfl
          · split at h
            · cases h
            · split at h
              · cases h
                rfl
              · exact ih h (by omega)

/-- Either a head stands at the front, or nothing is made of what is there.
-/
theorem readResponse_cases (ending : ReadErr) (s : Bytes) :
    (∃ (h : Head) (rest : Bytes), s = h.bytes ++ rest)
      ∨ Broken (readResponse accept wsKey ending s) := by
  cases hstatus : readLine ending s with
  | error e s' =>
      refine .inr ?_
      unfold readResponse
      simp only [bind, EStateM.bind, hstatus]
      exact readLine_broken hstatus
  | ok status s' =>
      obtain ⟨hline, hlen, rfl⟩ := readLine_iff.mp hstatus
      cases hheaders : readHeaders ending (s'.length + 1) status.length ∅ s' with
      | error e s'' =>
          refine .inr ?_
          unfold readResponse
          simp only [bind, EStateM.bind, hstatus, hheaders]
          exact readHeaders_broken hheaders (Nat.lt_succ_self _)
      | ok headers s'' =>
          obtain ⟨lines, blank, hlines, hblank, hfits, rfl, _⟩ :=
            readHeaders_ok hheaders
          refine .inl ⟨
            { status, fields := lines, blank
              status_line := hline
              status_fits := hlen
              field_lines := hlines
              blank_line := hblank
              fits := hfits }, s'', ?_⟩
          unfold Head.bytes
          simp only [List.append_assoc]

theorem readResponse_takes (ending : ReadErr) (s : Bytes) :
    Takes (MAX_HTTP_HEADERS + MAX_HTTP_LINE + 1) s
      (unread (readResponse accept wsKey ending s)) := by
  have hone := (readLine_takes ending s).mono
    (show _ ≤ MAX_HTTP_HEADERS + MAX_HTTP_LINE + 1 by omega)
  cases hstatus : readLine ending s with
  | error e s' =>
      rw [hstatus] at hone
      unfold readResponse
      simp only [bind, EStateM.bind, hstatus]
      exact hone
  | ok status s' =>
      obtain ⟨hline, hlen, rfl⟩ := readLine_iff.mp hstatus
      have hle : status.length ≤ MAX_HTTP_HEADERS :=
        Nat.le_trans hlen (by decide)
      have hrest := (readHeaders_takes ending (s'.length + 1) ∅ s' hle).after
        status
      rw [Nat.add_sub_cancel' (by omega)] at hrest
      unfold readResponse
      simp only [bind, EStateM.bind, hstatus]
      cases hheaders : readHeaders ending (s'.length + 1) status.length ∅ s' with
      | error e s'' =>
          rw [hheaders] at hrest
          exact hrest
      | ok headers s'' =>
          rw [hheaders] at hrest
          simp only
          cases checkResponse accept wsKey status headers with
          | ok u => exact hrest
          | error e => exact hrest

/-- The handshake over any bytes of a server. It succeeds iff they begin
with a head that switches to the WebSocket asked for, and what is behind
the head is left for the frames; it is refused with a status iff they
begin with a head of that status, of which every header is kept; it never
takes more than its limits, whatever is sent. -/
theorem upgrade_exact (ending : ReadErr) (s : Bytes) :
    (∀ rest, readResponse accept wsKey ending s = .ok () rest
      ↔ ∃ h : Head, s = h.bytes ++ rest ∧ Upgraded accept wsKey h)
    ∧ (∀ e rest,
      readResponse accept wsKey ending s = .error (.ws (.handshake e)) rest
      ↔ ∃ h : Head, s = h.bytes ++ rest ∧ statusCode h.status ≠ 101
        ∧ e.statusCode = statusCode h.status ∧ e.headers = h.headers)
    ∧ (∀ rest, readResponse accept wsKey ending s ≠ .error .outOfFuel rest)
    ∧ Takes (MAX_HTTP_HEADERS + MAX_HTTP_LINE + 1) s
      (unread (readResponse accept wsKey ending s)) := by
  have hback : ∀ h : Head, ∀ rest r, s = h.bytes ++ rest →
      outcome accept wsKey h rest = r →
      readResponse accept wsKey ending s = r := by
    rintro h rest r rfl rfl
    exact readResponse_head accept wsKey ending h rest
  refine ⟨?_, ?_, ?_, readResponse_takes accept wsKey ending s⟩
  · intro rest
    constructor
    · intro hok
      rcases readResponse_cases accept wsKey ending s with ⟨h, rest', rfl⟩ | hb
      · rw [readResponse_head, outcome] at hok
        split at hok
        · next hcheck =>
          cases hok
          exact ⟨h, rfl, (checkResponse_ok accept wsKey h).mp hcheck⟩
        · cases hok
      · rw [hok] at hb
        exact hb.elim
    · rintro ⟨h, hs, hup⟩
      refine hback h rest _ hs ?_
      rw [outcome, (checkResponse_ok accept wsKey h).mpr hup]
  · intro e rest
    constructor
    · intro herr
      rcases readResponse_cases accept wsKey ending s with ⟨h, rest', rfl⟩ | hb
      · rw [readResponse_head, outcome] at herr
        split at herr
        · cases herr
        · next hcheck =>
          cases herr
          obtain ⟨hcode, rfl⟩ := (checkResponse_handshake accept wsKey h e).mp
            hcheck
          exact ⟨h, rfl, hcode, rfl, rfl⟩
      · rw [herr] at hb
        cases hb
    · rintro ⟨h, hs, hcode, hstatus, hheaders⟩
      refine hback h rest _ hs ?_
      rw [outcome, (checkResponse_handshake accept wsKey h e).mpr
        ⟨hcode, by rw [← hstatus, ← hheaders]⟩]
  · intro rest herr
    rcases readResponse_cases accept wsKey ending s with ⟨h, rest', rfl⟩ | hb
    · rw [readResponse_head, outcome] at herr
      split at herr
      · cases herr
      · cases herr
    · rw [herr] at hb
      exact hb

end Wrtg.WsUpgrade

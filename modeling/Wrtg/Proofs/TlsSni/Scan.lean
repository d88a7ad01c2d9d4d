/-
The scan over the records (`tls_sni.rs`).

`records` cuts the input into the payloads the scan comes to. It returns
the host of the first that names one (`FirstName`), unless it comes to a
ClientHello of 34 bytes before: then it panics (`ReachesShort`). A
ClientHello that is serialized in one record is the first of them.
-/
import Mathlib.Data.List.GetD
import Wrtg.Proofs.TlsSni.ClientHello

namespace Wrtg.TlsSni

open Lib

-- ========================================================== the records

/-- The payloads of the records the scan comes to from `off` on, if none
of them ends it. -/
def records (data : Bytes) (off : Nat) : List Bytes :=
  if _h : off + 5 ≤ data.length then
    if data.getD off 0 ≠ 0x16 ∨ data.getD (off + 1) 0 ≠ 0x03 then
      records data (off + 1)
    else
      let recLen := beNat (sub data (off + 3) (off + 5))
      if recLen < 4 ∨ off + 5 + recLen > data.length then []
      else
        sub data (off + 5) (off + 5 + recLen)
          :: records data (off + (5 + recLen))
  else []
termination_by data.length - off

/-- The first of the messages that names a host ends the scan. -/
def firstHost : List Bytes → Res (Option Text)
  | [] => .ok none
  | payload :: payloads => do
      match ← sniFromClientHello payload with
      | some host => .ok (some host)
      | none => firstHost payloads

theorem sniRecords_eq (data : Bytes) (off : Nat) :
    sniRecords data off = firstHost (records data off) := by
  induction off using sniRecords.induct data with
  | case1 off hoff ihNext ihRecord =>
      have hb0 : data.getD off 0 = data[off] :=
        List.getD_eq_getElem _ _ (by omega)
      have hb1 : data.getD (off + 1) 0 = data[off + 1] :=
        List.getD_eq_getElem _ _ (by omega)
      have hlen : be16 data (off + 3)
          = .ok (beNat (sub data (off + 3) (off + 5))) := be16_eq (by omega)
      rw [sniRecords, records, dif_pos hoff, dif_pos hoff,
        idx_ok (show off < data.length by omega),
        idx_ok (show off + 1 < data.length by omega),
        hlen, hb0, hb1]
      simp only [bind, Except.bind]
      by_cases h0 : data[off] = 0x16
      · by_cases h1 : data[off + 1] = 0x03
        · have hno : ¬ (data[off] ≠ 0x16 ∨ data[off + 1] ≠ 0x03) := by
            intro h
            rcases h with h | h
            · exact h h0
            · exact h h1
          rw [if_neg (not_not_intro h0), if_neg (not_not_intro h1), if_neg hno]
          by_cases hfits : beNat (sub data (off + 3) (off + 5)) < 4
              ∨ off + 5 + beNat (sub data (off + 3) (off + 5)) > data.length
          · rw [if_pos hfits, if_pos hfits]
            rfl
          · have ih := ihRecord _ hfits
            rw [if_neg hfits, if_neg hfits, slice_ok (by omega) (by omega),
              firstHost]
            simp only [bind, Except.bind]
            cases sniFromClientHello (sub data (off + 5) (off + 5
                + beNat (sub data (off + 3) (off + 5)))) with
            | error e => rfl
            | ok host =>
                cases host with
                | some host => rfl
                | none => exact ih
        · rw [if_neg (not_not_intro h0), if_pos h1, if_pos (.inr h1)]
          exact ihNext
      · rw [if_pos h0, if_pos (.inl h0)]
        exact ihNext
  | case2 off hoff =>
      rw [sniRecords, records, dif_neg hoff, dif_neg hoff]
      rfl

/-- The first message that names a host. -/
inductive FirstName : List Bytes → Text → Prop
  | here {payload payloads host} : Names payload host →
      FirstName (payload :: payloads) host
  | later {payload payloads host} : (∀ host, ¬ Names payload host) →
      FirstName payloads host → FirstName (payload :: payloads) host

/-- A short message, with no host in any before it. -/
inductive HitsShort : List Bytes → Prop
  | here {payload payloads} : Short payload → HitsShort (payload :: payloads)
  | later {payload payloads} : (∀ host, ¬ Names payload host) →
      HitsShort payloads → HitsShort (payload :: payloads)

theorem firstHost_spec (payloads : List Bytes) :
    (∃ r, firstHost payloads = .ok r ∧ ¬ HitsShort payloads
      ∧ Tells r (FirstName payloads))
    ∨ HitsShort payloads
      ∧ firstHost payloads = .error (.panic .outOfRange) := by
  induction payloads with
  | nil => exact .inl ⟨none, rfl, nofun, Tells.none nofun⟩
  | cons payload payloads ih =>
      rw [firstHost]
      rcases sniFromClientHello_spec payload with
        ⟨r, hr, hshort, htells⟩ | ⟨hshort, herr⟩
      rotate_left
      · rw [herr]
        exact .inr ⟨.here hshort, rfl⟩
      rw [hr]
      cases r with
      | some host =>
          have hhost := (htells host).mp rfl
          refine .inl ⟨some host, rfl, ?_, fun other => ?_⟩
          · intro h
            rcases h with hs | ⟨hno, -⟩
            · exact hshort hs
            · exact hno host hhost
          · rw [htells other]
            constructor
            · exact .here
            · intro h
              rcases h with hname | ⟨hno, -⟩
              · exact hname
              · exact absurd hhost (hno host)
      | none =>
          have hnone : ∀ host, ¬ Names payload host :=
            fun host hhost => nomatch (htells host).mpr hhost
          rcases ih with ⟨r, hr, hno, hrest⟩ | ⟨hhits, herr⟩
          · refine .inl ⟨r, hr, ?_, fun host => (hrest host).trans ?_⟩
            · intro h
              rcases h with hs | ⟨-, hhits⟩
              · exact hshort hs
              · exact hno hhits
            · constructor
              · exact .later hnone
              · intro h
                rcases h with hname | ⟨-, hname⟩
                · exact absurd hname (hnone host)
                · exact hname
          · exact .inr ⟨.later hnone hhits, herr⟩

/-- The scan comes to a ClientHello of 34 bytes. -/
def ReachesShort (data : Bytes) : Prop := HitsShort (records data 0)

/-- The scan panics on a short ClientHello and nowhere else. -/
theorem parseTlsClientHelloSni_spec (data : Bytes) :
    (∃ r, parseTlsClientHelloSni data = .ok r ∧ ¬ ReachesShort data
      ∧ Tells r (FirstName (records data 0)))
    ∨ ReachesShort data
      ∧ parseTlsClientHelloSni data = .error (.panic .outOfRange) := by
  unfold parseTlsClientHelloSni
  rw [sniRecords_eq]
  exact firstHost_spec _

-- ========================================================= serialized

structure Extension where
  extType : Nat
  data : Bytes
  type_fits : extType < 2 ^ 16
  data_fits : data.length < 2 ^ 16

def Extension.bytes (e : Extension) : Bytes :=
  beBytes 2 e.extType ++ vec 2 e.data

/-- A list of server names: a host name, and other entries behind it. -/
structure ServerName where
  host : Text
  others : Bytes
  host_fits : (Utf8.encode host).length < 2 ^ 16
  fits : 3 + (Utf8.encode host).length + others.length + 2 < 2 ^ 16

def ServerName.names (s : ServerName) : Bytes :=
  0 :: (vec 2 (Utf8.encode s.host) ++ s.others)

theorem ServerName.names_length (s : ServerName) :
    s.names.length = 3 + (Utf8.encode s.host).length + s.others.length := by
  unfold ServerName.names
  rw [List.length_cons, List.length_append, vec_length]
  omega

def ServerName.extension (s : ServerName) : Extension where
  extType := 0
  data := vec 2 s.names
  type_fits := by decide
  data_fits := by
    have hfits := s.fits
    rw [vec_length, s.names_length]
    omega

structure ClientHello where
  version : Bytes
  random : Bytes
  sessionId : Bytes
  cipherSuites : Bytes
  compression : Bytes
  extensions : List Extension
  version_length : version.length = 2
  random_length : random.length = 32
  sessionId_fits : sessionId.length < 2 ^ 8
  cipherSuites_fits : cipherSuites.length < 2 ^ 16
  compression_fits : compression.length < 2 ^ 8
  extensions_fits : (extensions.flatMap Extension.bytes).length < 2 ^ 16

def ClientHello.body (hello : ClientHello) : Bytes :=
  (hello.version ++ hello.random) ++ (vec 1 hello.sessionId
    ++ (vec 2 hello.cipherSuites ++ (vec 1 hello.compression
      ++ vec 2 (hello.extensions.flatMap Extension.bytes))))

/-- The message, with its type and length before it. -/
def ClientHello.handshake (hello : ClientHello) : Bytes :=
  0x01 :: vec 3 hello.body

/-- A handshake record of version 3.`minor`. -/
def handshakeRecord (minor : UInt8) (payload : Bytes) : Bytes :=
  0x16 :: 0x03 :: minor :: vec 2 payload

theorem ClientHello.body_length (hello : ClientHello) :
    34 < hello.body.length ∧ hello.body.length < 256 ^ 3 := by
  have h1 := hello.version_length
  have h2 := hello.random_length
  have h3 := hello.sessionId_fits
  have h4 := hello.cipherSuites_fits
  have h5 := hello.compression_fits
  have h6 := hello.extensions_fits
  unfold ClientHello.body
  simp only [List.length_append, vec_length]
  omega

theorem Extension.bytes_cons (e : Extension) (rest : Bytes) :
    ∃ t0 t1, e.bytes ++ rest = t0 :: t1 :: (vec 2 e.data ++ rest)
      ∧ (t0 = 0 → t1 = 0 → e.extType = 0) := by
  have hfits := e.type_fits
  refine ⟨.ofNat (e.extType / 256 % 256), .ofNat (e.extType % 256), ?_, ?_⟩
  · unfold Extension.bytes
    rw [List.append_assoc]
    rfl
  · intro h0 h1
    have h0 := congrArg UInt8.toNat h0
    have h1 := congrArg UInt8.toNat h1
    rw [UInt8.toNat_ofNat', UInt8.toNat_zero] at h0 h1
    omega

/-- Extensions of other types are passed over. -/
theorem extsName_others {others : List Extension}
    (h : ∀ e ∈ others, e.extType ≠ 0) (rest : Bytes) (host : Text) :
    ExtsName (others.flatMap Extension.bytes ++ rest) host
      ↔ ExtsName rest host := by
  induction others with
  | nil => rfl
  | cons e others ih =>
      have hne := h e (List.mem_cons_self ..)
      have ih := ih fun e he => h e (List.mem_cons_of_mem _ he)
      obtain ⟨t0, t1, hbytes, hzero⟩ :=
        e.bytes_cons (others.flatMap Extension.bytes ++ rest)
      rw [List.flatMap_cons, List.append_assoc, hbytes,
        extsName_cons (reads_vec e.data_fits _), ih]
      constructor
      · intro h
        rcases h with ⟨h0, h1, -⟩ | ⟨-, hname⟩
        · exact absurd (hzero h0 h1) hne
        · exact hname
      · exact fun hname => .inr ⟨fun h0 h1 => absurd (hzero h0 h1) hne, hname⟩

theorem ServerName.extNames (s : ServerName) :
    ExtNames s.extension.data s.host := by
  have hlen := s.names_length
  have hfits := s.fits
  have hnames : s.names.length < 256 ^ 2 := by omega
  refine ⟨s.names, [], ⟨hnames, (List.append_nil _).symm⟩, ?_⟩
  rw [List.append_nil, hlen]
  exact .host (by omega) (reads_vec s.host_fits _) (Utf8.decode?_encode _)

/-- The body names what its extensions name. -/
theorem ClientHello.bodyNames {hello : ClientHello} {host : Text} :
    BodyNames hello.body host
      ↔ ExtsName (hello.extensions.flatMap Extension.bytes) host := by
  have hhead : (hello.version ++ hello.random).length = 34 := by
    rw [List.length_append, hello.version_length, hello.random_length]
  have h1 := reads_vec (k := 1) hello.sessionId_fits (vec 2 hello.cipherSuites
    ++ (vec 1 hello.compression
      ++ vec 2 (hello.extensions.flatMap Extension.bytes)))
  have h2 := reads_vec (k := 2) hello.cipherSuites_fits (vec 1 hello.compression
    ++ vec 2 (hello.extensions.flatMap Extension.bytes))
  have h3 := reads_vec (k := 1) hello.compression_fits
    (vec 2 (hello.extensions.flatMap Extension.bytes))
  have h4 := reads_vec (k := 2) hello.extensions_fits []
  rw [List.append_nil] at h4
  have hbody : hello.body.drop 34 = vec 1 hello.sessionId
      ++ (vec 2 hello.cipherSuites ++ (vec 1 hello.compression
        ++ vec 2 (hello.extensions.flatMap Extension.bytes))) :=
    List.drop_left' hhead
  exact bodyNames_exts (hbody ▸ h1) h2 h3 h4

/-- The message has the host its extensions name, whatever follows. -/
theorem ClientHello.sni (hello : ClientHello) (more : Bytes) :
    ∃ r, sniFromClientHello (hello.handshake ++ more) = .ok r
      ∧ Tells r (ExtsName (hello.extensions.flatMap Extension.bytes)) := by
  obtain ⟨hlong, hfits⟩ := hello.body_length
  have hreads := reads_vec hfits more
  have hnames : ∀ host, Names (hello.handshake ++ more) host
      ↔ BodyNames hello.body host := by
    intro host
    constructor
    · intro h
      obtain ⟨bs, body, rest, hcons, h1, hname⟩ := h
      obtain ⟨-, rfl⟩ := List.cons.inj hcons
      obtain ⟨rfl, -⟩ := h1.unique hreads
      exact hname
    · exact fun hname => ⟨_, hello.body, more, rfl, hreads, hname⟩
  rcases sniFromClientHello_spec (hello.handshake ++ more) with
    ⟨r, hr, -, htells⟩ | ⟨hshort, -⟩
  · refine ⟨r, hr, fun host => (htells host).trans ?_⟩
    rw [hnames, ClientHello.bodyNames]
  · exact absurd hshort (not_short hreads (by omega))

-- ======================================================== the first record

/-- A record at the head of the input is the first of the scan. -/
theorem records_record {payload : Bytes} (hmin : 4 ≤ payload.length)
    (hfits : payload.length < 2 ^ 16) (minor : UInt8) (tail : Bytes) :
    ∃ payloads, records (handshakeRecord minor payload ++ tail) 0
      = payload :: payloads := by
  obtain ⟨data, hdata⟩ : ∃ data,
      data = handshakeRecord minor payload ++ tail := ⟨_, rfl⟩
  have hlen : data.length = 5 + payload.length + tail.length := by
    rw [hdata, List.length_append]
    unfold handshakeRecord
    rw [List.length_cons, List.length_cons, List.length_cons, vec_length]
    omega
  have hsub : sub data 3 data.length = vec 2 payload ++ tail := by
    have hdrop : data.drop 3 = vec 2 payload ++ tail := by
      rw [hdata]
      rfl
    unfold sub
    rw [List.take_of_length_le (by rw [List.length_drop]), hdrop]
  have hreads : Reads 2 (sub data 3 data.length) payload tail := by
    rw [hsub]
    exact reads_vec hfits tail
  obtain ⟨-, hn, hpayload, -⟩ := hreads.at (by omega) (Nat.le_refl _)
  have h0 : data.getD 0 0 = 0x16 := by rw [hdata]; rfl
  have h1 : data.getD (0 + 1) 0 = 0x03 := by rw [hdata]; rfl
  rw [← hdata, records, dif_pos (by omega), h0, h1, if_neg (by decide)]
  simp only [Nat.zero_add]
  rw [show beNat (sub data 3 5) = payload.length from hn, if_neg (by omega),
    show sub data 5 (5 + payload.length) = payload from hpayload]
  exact ⟨_, rfl⟩

/-- The host of a serialized ClientHello is found, and no host in one
without the extension. -/
theorem serialized_host :
    (∀ (hello : ClientHello) (before : List Extension) (server : ServerName)
      (after : List Extension) (minor : UInt8) (more tail : Bytes),
      hello.extensions = before ++ server.extension :: after →
      (∀ e ∈ before, e.extType ≠ 0) →
      (hello.handshake ++ more).length < 2 ^ 16 →
      parseTlsClientHelloSni
          (handshakeRecord minor (hello.handshake ++ more) ++ tail)
        = .ok (some server.host))
    ∧ ∀ (hello : ClientHello) (more : Bytes),
      (∀ e ∈ hello.extensions, e.extType ≠ 0) →
      sniFromClientHello (hello.handshake ++ more) = .ok none := by
  constructor
  · intro hello before server after minor more tail hexts hbefore hfits
    have hmin : 4 ≤ (hello.handshake ++ more).length := by
      unfold ClientHello.handshake
      rw [List.length_append, List.length_cons, vec_length]
      omega
    have hname : ExtsName (hello.extensions.flatMap Extension.bytes)
        server.host := by
      have hcons : (server.extension :: after).flatMap Extension.bytes
          = 0 :: 0 :: (vec 2 server.extension.data
            ++ after.flatMap Extension.bytes) := by
        have hzero : beBytes 2 server.extension.extType = [0, 0] :=
          (by decide : beBytes 2 0 = [0, 0])
        rw [List.flatMap_cons, Extension.bytes, List.append_assoc, hzero]
        rfl
      rw [hexts, List.flatMap_append, extsName_others hbefore, hcons]
      have hdata := reads_vec (k := 2) server.extension.data_fits
        (after.flatMap Extension.bytes)
      exact .here hdata server.extNames
    obtain ⟨r, hr, htells⟩ := hello.sni more
    obtain ⟨payloads, hrecords⟩ := records_record hmin hfits minor tail
    unfold parseTlsClientHelloSni
    rw [sniRecords_eq, hrecords, firstHost, hr, (htells _).mpr hname]
    rfl
  · intro hello more hothers
    obtain ⟨r, hr, htells⟩ := hello.sni more
    rw [hr]
    cases r with
    | none => rfl
    | some host =>
        have hname := (htells host).mp rfl
        rw [← List.append_nil (hello.extensions.flatMap _),
          extsName_others hothers] at hname
        exact absurd hname.length (by decide)

/-- The ClientHello of the source's test, behind another extension. -/
def sampleServer : ServerName where
  host := "web.telegram.org".toList
  others := []
  host_fits := by decide
  fits := by decide

def sampleOther : Extension where
  extType := 23
  data := []
  type_fits := by decide
  data_fits := by decide

def sampleHello : ClientHello where
  version := [0x03, 0x03]
  random := List.replicate 32 0
  sessionId := []
  cipherSuites := [0x00, 0x2f]
  compression := [0x00]
  extensions := [sampleOther, sampleServer.extension]
  version_length := rfl
  random_length := rfl
  sessionId_fits := by decide
  cipherSuites_fits := by decide
  compression_fits := by decide
  extensions_fits := by decide

theorem serialized_host_sample :
    parseTlsClientHelloSni
        (handshakeRecord 1 (sampleHello.handshake ++ [0x0b]) ++ [0x17])
      = .ok (some "web.telegram.org".toList)
    ∧ sniFromClientHello
        ({ sampleHello with extensions := [], extensions_fits := by decide }
          : ClientHello).handshake = .ok none := by
  constructor
  · refine serialized_host.1 sampleHello [sampleOther] sampleServer [] 1
      [0x0b] [0x17] rfl ?_ (by decide)
    intro e he
    cases List.mem_singleton.mp he
    decide
  · have hnone := serialized_host.2 { sampleHello with
      extensions := [], extensions_fits := by decide } [] nofun
    rw [List.append_nil] at hnone
    exact hnone

end Wrtg.TlsSni

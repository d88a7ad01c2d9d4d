/-
Which handshake messages name a host (`tls_sni.rs`).

The message is vectors within vectors. `NameIn`, `ExtsName` and
`BodyNames` say of each level when it names a host, on the bytes
themselves, and the functions of the scan, which go by offsets, are
shown to return that host. Every access is guarded by the length before
it but one: the session id's length byte, in a body of 34 bytes.
-/
import Wrtg.Lib.Vec
import Wrtg.TlsSni

namespace Wrtg.TlsSni

open Lib

-- ========================================================== the grammar

/-- The entries of a server name list name a host: the first of type
`host_name`, if it is well-formed text. `room` bytes are left of the
list, which has to hold the head of an entry but not all of it. -/
inductive NameIn : Nat → Bytes → Text → Prop
  | host {room bs name rest host} : 3 ≤ room → Reads 2 bs name rest →
      Utf8.decode? name = some host → NameIn room (0 :: bs) host
  | skip {room nameType bs name rest host} : nameType ≠ 0 → 3 ≤ room →
      Reads 2 bs name rest →
      NameIn (room - (3 + name.length)) rest host →
      NameIn room (nameType :: bs) host

/-- The data of a server name extension name a host. -/
def ExtNames (data : Bytes) (host : Text) : Prop :=
  ∃ names rest, Reads 2 data names rest
    ∧ NameIn names.length (names ++ rest) host

/-- The extensions name a host: the first of type `server_name` that
does. -/
inductive ExtsName : Bytes → Text → Prop
  | here {bs data rest host} : Reads 2 bs data rest → ExtNames data host →
      ExtsName (0 :: 0 :: bs) host
  | skip {t0 t1 bs data rest host} : Reads 2 bs data rest →
      (t0 = 0 → t1 = 0 → ∀ host, ¬ ExtNames data host) →
      ExtsName rest host → ExtsName (t0 :: t1 :: bs) host

/-- The body names a host: version and random, session id, cipher
suites, compression methods and extensions. -/
def BodyNames (body : Bytes) (host : Text) : Prop :=
  ∃ sid cipherSuites compression extensions r1 r2 r3 r4,
    Reads 1 (body.drop 34) sid r1 ∧ Reads 2 r1 cipherSuites r2
      ∧ Reads 1 r2 compression r3 ∧ Reads 2 r3 extensions r4
      ∧ ExtsName extensions host

/-- The handshake message is a ClientHello that names a host. -/
def Names (payload : Bytes) (host : Text) : Prop :=
  ∃ bs body rest, payload = 0x01 :: bs ∧ Reads 3 bs body rest
    ∧ BodyNames body host

/-- Of an entry of the name list either it is read or what follows it. -/
theorem nameIn_cons {room : Nat} {nameType : UInt8} {bs name rest : Bytes}
    (h : Reads 2 bs name rest) (host : Text) :
    NameIn room (nameType :: bs) host
      ↔ 3 ≤ room ∧ (nameType = 0 ∧ Utf8.decode? name = some host
        ∨ nameType ≠ 0 ∧ NameIn (room - (3 + name.length)) rest host) := by
  constructor
  · intro hname
    cases hname with
    | host hroom hreads hdecode =>
        obtain ⟨rfl, -⟩ := hreads.unique h
        exact ⟨hroom, .inl ⟨rfl, hdecode⟩⟩
    | skip htype hroom hreads hrest =>
        obtain ⟨rfl, rfl⟩ := hreads.unique h
        exact ⟨hroom, .inr ⟨htype, hrest⟩⟩
  · intro h
    obtain ⟨hroom, ⟨rfl, hdecode⟩ | ⟨htype, hrest⟩⟩ := h
    · exact .host hroom h hdecode
    · exact .skip htype hroom h hrest

/-- A name is found only where an entry is there whole. -/
theorem NameIn.reads {room : Nat} {nameType : UInt8} {bs : Bytes}
    {host : Text} (h : NameIn room (nameType :: bs) host) :
    ∃ name rest, Reads 2 bs name rest := by
  cases h with
  | host _ hreads _ => exact ⟨_, _, hreads⟩
  | skip _ _ hreads _ => exact ⟨_, _, hreads⟩

/-- An entry takes three bytes at least. -/
theorem NameIn.room {room : Nat} {bs : Bytes} {host : Text}
    (h : NameIn room bs host) : 3 ≤ room := by
  cases h with
  | host hroom => exact hroom
  | skip _ hroom => exact hroom

/-- Of an extension either its names are read, where it is `server_name`, or
what follows it. -/
theorem extsName_cons {t0 t1 : UInt8} {bs data rest : Bytes}
    (h : Reads 2 bs data rest) (host : Text) :
    ExtsName (t0 :: t1 :: bs) host
      ↔ t0 = 0 ∧ t1 = 0 ∧ ExtNames data host
        ∨ (t0 = 0 → t1 = 0 → ∀ host, ¬ ExtNames data host)
          ∧ ExtsName rest host := by
  constructor
  · intro hname
    cases hname with
    | here hreads hname =>
        obtain ⟨rfl, -⟩ := hreads.unique h
        exact .inl ⟨rfl, rfl, hname⟩
    | skip hreads hno hrest =>
        obtain ⟨rfl, rfl⟩ := hreads.unique h
        exact .inr ⟨hno, hrest⟩
  · intro h
    rcases h with ⟨rfl, rfl, hname⟩ | ⟨hno, hrest⟩
    · exact .here h hname
    · exact .skip h hno hrest

/-- Names are found only where an extension is there whole. -/
theorem ExtsName.reads {t0 t1 : UInt8} {bs : Bytes} {host : Text}
    (h : ExtsName (t0 :: t1 :: bs) host) :
    ∃ data rest, Reads 2 bs data rest := by
  cases h with
  | here hreads _ => exact ⟨_, _, hreads⟩
  | skip hreads _ _ => exact ⟨_, _, hreads⟩

-- ========================================================= by offsets

/-- Two bytes that are there are read as they stand. -/
theorem be16_eq {data : Bytes} {i : Nat} (h : i + 2 ≤ data.length) :
    be16 data i = .ok (beNat (sub data i (i + 2))) := by
  unfold be16
  rw [idx_ok (by omega), idx_ok (by omega), sub_cons (by omega) (by omega),
    sub_cons (by omega) (by omega)]
  have hnil : sub data (i + 1 + 1) (i + 2) = [] := by simp [sub]
  rw [hnil]
  rfl

/-- `r` is the host that `names` says, if any. -/
def Tells (r : Option Text) (names : Text → Prop) : Prop :=
  ∀ host, r = some host ↔ names host

/-- Where there is no name, none is told. -/
theorem Tells.none {names : Text → Prop} (h : ∀ host, ¬ names host) :
    Tells none names :=
  fun host => ⟨nofun, fun hname => absurd hname (h host)⟩

/-- The loop over the names tells the first of them that is a host. -/
theorem sniNames_spec {data : Bytes} {listLen : Nat}
    (h : listLen + 2 ≤ data.length) (pos : Nat) :
    ∃ r, sniNames data listLen pos = .ok r ∧ Tells r
      (NameIn (2 + listLen - pos) (sub data pos data.length)) := by
  induction pos using sniNames.induct data listLen with
  | case1 pos hpos ih =>
      rw [sniNames, dif_pos hpos, idx_ok (by omega), be16_eq (by omega),
        sub_cons (by omega) (Nat.le_refl _)]
      simp only [bind, Except.bind]
      rcases reads_or 2 (show pos + 1 ≤ data.length by omega)
          (Nat.le_refl _) with ⟨name, rest, hreads⟩ | ⟨hno, hlong⟩
      · obtain ⟨hend, hlen, hname, hrest⟩ :=
          hreads.at (by omega) (Nat.le_refl _)
        rw [hlen, if_neg (by omega)]
        by_cases htype : data[pos] = 0
        · rw [if_pos htype, slice_ok (by omega) (by omega), hname]
          refine ⟨_, rfl, fun host => ?_⟩
          rw [nameIn_cons hreads]
          constructor
          · exact fun hdecode => ⟨by omega, .inl ⟨htype, hdecode⟩⟩
          · intro h
            obtain ⟨-, ⟨-, hdecode⟩ | ⟨hne, -⟩⟩ := h
            · exact hdecode
            · exact absurd htype hne
        · rw [if_neg htype]
          obtain ⟨r, hr, htells⟩ := ih name.length
          refine ⟨r, hr, fun host => (htells host).trans ?_⟩
          rw [nameIn_cons hreads, hrest,
            show 2 + listLen - (pos + 3 + name.length)
              = 2 + listLen - pos - (3 + name.length) by omega]
          constructor
          · exact fun hname => ⟨by omega, .inr ⟨htype, hname⟩⟩
          · intro h
            obtain ⟨-, ⟨heq, -⟩ | ⟨-, hname⟩⟩ := h
            · exact absurd heq htype
            · exact hname
      · rw [if_pos (by omega)]
        refine ⟨_, rfl, Tells.none fun host hname => ?_⟩
        obtain ⟨name, rest, hreads⟩ := hname.reads
        exact hno name rest hreads
  | case2 pos hpos =>
      rw [sniNames, dif_neg hpos]
      refine ⟨_, rfl, Tells.none fun host hname => ?_⟩
      have hroom := hname.room
      omega

/-- A buffer is its bytes from 0 to its end. -/
theorem sub_all (data : Bytes) : sub data 0 data.length = data := by
  unfold sub
  rw [List.drop_zero, Nat.sub_zero, List.take_length]

/-- A `server_name` extension tells its host. -/
theorem parseSniExtension_spec (data : Bytes) :
    ∃ r, parseSniExtension data = .ok r ∧ Tells r (ExtNames data) := by
  unfold parseSniExtension
  by_cases hshort : data.length < 5
  · rw [if_pos hshort]
    refine ⟨_, rfl, Tells.none ?_⟩
    intro host h
    obtain ⟨names, rest, hreads, hname⟩ := h
    have hroom := hname.room
    have hlen := congrArg List.length hreads.2
    rw [List.length_append, vec_length] at hlen
    omega
  rw [if_neg hshort, be16_eq (by omega)]
  simp only [bind, Except.bind]
  have hall := sub_all data
  rcases reads_or 2 (Nat.zero_le data.length) (Nat.le_refl _) with
    ⟨names, rest, hreads⟩ | ⟨hno, hlong⟩
  · obtain ⟨hend, hlen, -, -⟩ := hreads.at (Nat.zero_le _) (Nat.le_refl _)
    rw [hlen, if_neg (by omega)]
    obtain ⟨r, hr, htells⟩ :=
      sniNames_spec (show names.length + 2 ≤ data.length by omega) 2
    refine ⟨r, hr, fun host => (htells host).trans ?_⟩
    have hdrop := (reads_iff.mp hreads).2.2
    rw [sub_drop] at hdrop
    rw [hall] at hreads
    rw [show 2 + names.length - 2 = names.length by omega,
      show sub data 2 data.length = names ++ rest from hdrop]
    constructor
    · exact fun hname => ⟨names, rest, hreads, hname⟩
    · intro h
      obtain ⟨names', rest', hreads', hname⟩ := h
      obtain ⟨rfl, rfl⟩ := hreads.unique hreads'
      exact hname
  · rw [if_pos (by omega)]
    refine ⟨_, rfl, Tells.none ?_⟩
    intro host h
    obtain ⟨names, rest, hreads, -⟩ := h
    rw [hall] at hno
    exact hno names rest hreads

theorem ExtsName.length {bs : Bytes} {host : Text} (h : ExtsName bs host) :
    4 ≤ bs.length := by
  have hread : ∀ {bs data rest : Bytes}, Reads 2 bs data rest →
      2 ≤ bs.length := fun h => (reads_iff.mp h).1
  cases h with
  | here hreads _ =>
      have hlen := hread hreads
      rw [List.length_cons, List.length_cons]
      omega
  | skip hreads _ _ =>
      have hlen := hread hreads
      rw [List.length_cons, List.length_cons]
      omega

/-- A type of two zero bytes is `server_name`. -/
theorem extType_zero {body : Bytes} {pos : Nat} (h : pos + 1 < body.length) :
    beNat (sub body pos (pos + 2)) = 0
      ↔ body[pos] = 0 ∧ body[pos + 1] = 0 := by
  have hnil : sub body (pos + 1 + 1) (pos + 2) = [] := by simp [sub]
  rw [sub_cons (by omega) (by omega), sub_cons (by omega) (by omega), hnil]
  have hvalue : beNat [body[pos], body[pos + 1]]
      = body[pos].toNat * 256 + body[pos + 1].toNat := by simp [beNat]
  rw [hvalue, ← UInt8.toNat_inj, ← UInt8.toNat_inj, UInt8.toNat_zero]
  omega

/-- The loop over the extensions tells the host of the first that has one.
-/
theorem sniExtensions_spec {body : Bytes} {extEnd : Nat}
    (h : extEnd ≤ body.length) (pos : Nat) :
    ∃ r, sniExtensions body extEnd pos = .ok r
      ∧ Tells r (ExtsName (sub body pos extEnd)) := by
  induction pos using sniExtensions.induct extEnd with
  | case1 pos hpos ih =>
      have hzero := extType_zero (show pos + 1 < body.length by omega)
      rw [sniExtensions, dif_pos hpos, be16_eq (by omega), be16_eq (by omega),
        sub_cons (by omega) h, sub_cons (by omega) h]
      simp only [bind, Except.bind]
      rcases reads_or 2 (show pos + 1 + 1 ≤ extEnd by omega) h with
        ⟨data, rest, hreads⟩ | ⟨hno, hlong⟩
      · obtain ⟨hend, hlen, hdata, hrest⟩ := hreads.at (by omega) h
        have hfits : ¬ pos + 4 + data.length > extEnd := by omega
        obtain ⟨r, hr, htells⟩ := ih data.length hfits
        rw [show beNat (sub body (pos + 2) (pos + 2 + 2)) = data.length
          from hlen, if_neg hfits]
        rw [show sub body (pos + 4 + data.length) extEnd = rest from hrest]
          at htells
        by_cases htype : beNat (sub body pos (pos + 2)) = 0
        · obtain ⟨ht0, ht1⟩ := hzero.mp htype
          rw [if_pos htype, slice_ok (by omega) (by omega),
            show sub body (pos + 4) (pos + 4 + data.length) = data from hdata]
          obtain ⟨r0, hr0, htells0⟩ := parseSniExtension_spec data
          simp only [hr0]
          cases r0 with
          | some host =>
              have hhost := (htells0 host).mp rfl
              refine ⟨_, rfl, fun other => ?_⟩
              rw [extsName_cons hreads, htells0 other]
              constructor
              · exact fun hother => .inl ⟨ht0, ht1, hother⟩
              · intro h
                rcases h with ⟨-, -, hother⟩ | ⟨hno, -⟩
                · exact hother
                · exact absurd hhost (hno ht0 ht1 host)
          | none =>
              have hnone : ∀ host, ¬ ExtNames data host := by
                intro host hhost
                cases (htells0 host).mpr hhost
              refine ⟨r, hr, fun host => (htells host).trans ?_⟩
              rw [extsName_cons hreads]
              constructor
              · exact fun hname => .inr ⟨fun _ _ => hnone, hname⟩
              · intro h
                rcases h with ⟨-, -, hhost⟩ | ⟨-, hname⟩
                · exact absurd hhost (hnone host)
                · exact hname
        · rw [if_neg htype]
          refine ⟨r, hr, fun host => (htells host).trans ?_⟩
          rw [extsName_cons hreads]
          constructor
          · exact fun hname =>
              .inr ⟨fun h0 h1 => absurd (hzero.mpr ⟨h0, h1⟩) htype, hname⟩
          · intro h
            rcases h with ⟨h0, h1, -⟩ | ⟨-, hname⟩
            · exact absurd (hzero.mpr ⟨h0, h1⟩) htype
            · exact hname
      · rw [if_pos (show pos + 4
          + beNat (sub body (pos + 2) (pos + 2 + 2)) > extEnd from hlong)]
        refine ⟨_, rfl, Tells.none fun host hname => ?_⟩
        obtain ⟨data, rest, hreads⟩ := hname.reads
        exact hno data rest hreads
  | case2 pos hpos =>
      rw [sniExtensions, dif_neg hpos]
      refine ⟨_, rfl, Tells.none fun host hname => ?_⟩
      have hlen := hname.length
      rw [sub_length] at hlen
      omega

-- ============================================================ the body

/-- The length byte of the session id is read without a check. -/
theorem sniFromBody_short {body : Bytes} (h : body.length = 34) :
    sniFromBody body = .error (.panic .outOfRange) := by
  have hpanic : idx body 34 = .error (.panic .outOfRange) := by
    unfold idx
    rw [List.getElem?_eq_none (by omega)]
  unfold sniFromBody
  rw [if_neg (by omega)]
  simp only [hpanic, bind, Except.bind]

theorem idx_toNat {data : Bytes} {i : Nat} (h : i < data.length) :
    ∃ b, idx data i = .ok b ∧ b.toNat = beNat (sub data i (i + 1)) := by
  have hnil : sub data (i + 1) (i + 1) = [] := by simp [sub]
  refine ⟨data[i], idx_ok h, ?_⟩
  rw [sub_cons (by omega) h, hnil]
  simp [beNat]

section Body

variable {body sid cs comp exts r1 r2 r3 r4 : Bytes} {host : Text}

-- what a body names, with its first vectors read

/-- Behind the session id, -/
theorem bodyNames_sid (h1 : Reads 1 (body.drop 34) sid r1) :
    BodyNames body host
      ↔ ∃ cs comp exts r2 r3 r4, Reads 2 r1 cs r2 ∧ Reads 1 r2 comp r3
          ∧ Reads 2 r3 exts r4 ∧ ExtsName exts host := by
  constructor
  · intro h
    obtain ⟨sid', cs, comp, exts, r1', r2, r3, r4, k1, hrest⟩ := h
    obtain ⟨-, rfl⟩ := k1.unique h1
    exact ⟨cs, comp, exts, r2, r3, r4, hrest⟩
  · intro h
    obtain ⟨cs, comp, exts, r2, r3, r4, hrest⟩ := h
    exact ⟨sid, cs, comp, exts, r1, r2, r3, r4, h1, hrest⟩

/-- the cipher suites, -/
theorem bodyNames_cs (h1 : Reads 1 (body.drop 34) sid r1)
    (h2 : Reads 2 r1 cs r2) :
    BodyNames body host
      ↔ ∃ comp exts r3 r4, Reads 1 r2 comp r3 ∧ Reads 2 r3 exts r4
          ∧ ExtsName exts host := by
  rw [bodyNames_sid h1]
  constructor
  · intro h
    obtain ⟨cs', comp, exts, r2', r3, r4, k2, hrest⟩ := h
    obtain ⟨-, rfl⟩ := k2.unique h2
    exact ⟨comp, exts, r3, r4, hrest⟩
  · intro h
    obtain ⟨comp, exts, r3, r4, hrest⟩ := h
    exact ⟨cs, comp, exts, r2, r3, r4, h2, hrest⟩

/-- and the compression methods, what is left to read are the extensions. -/
theorem bodyNames_comp (h1 : Reads 1 (body.drop 34) sid r1)
    (h2 : Reads 2 r1 cs r2) (h3 : Reads 1 r2 comp r3) :
    BodyNames body host
      ↔ ∃ exts r4, Reads 2 r3 exts r4 ∧ ExtsName exts host := by
  rw [bodyNames_cs h1 h2]
  constructor
  · intro h
    obtain ⟨comp', exts, r3', r4, k3, hrest⟩ := h
    obtain ⟨-, rfl⟩ := k3.unique h3
    exact ⟨exts, r4, hrest⟩
  · intro h
    obtain ⟨exts, r4, hrest⟩ := h
    exact ⟨comp, exts, r3, r4, h3, hrest⟩

/-- A body names what its extensions name. -/
theorem bodyNames_exts (h1 : Reads 1 (body.drop 34) sid r1)
    (h2 : Reads 2 r1 cs r2) (h3 : Reads 1 r2 comp r3)
    (h4 : Reads 2 r3 exts r4) :
    BodyNames body host ↔ ExtsName exts host := by
  rw [bodyNames_comp h1 h2 h3]
  constructor
  · intro h
    obtain ⟨exts', r4', k4, hname⟩ := h
    obtain ⟨rfl, -⟩ := k4.unique h4
    exact hname
  · exact fun hname => ⟨exts, r4, h4, hname⟩

end Body

/-- The body of a ClientHello tells its host, unless it ends where the
session id is to be. -/
theorem sniFromBody_spec {body : Bytes} (h : body.length ≠ 34) :
    ∃ r, sniFromBody body = .ok r ∧ Tells r (BodyNames body) := by
  have hle := Nat.le_refl body.length
  have hdrop : sub body 34 body.length = body.drop 34 := by
    unfold sub
    rw [List.take_of_length_le (by rw [List.length_drop])]
  unfold sniFromBody
  by_cases hshort : body.length < 34
  · rw [if_pos hshort]
    refine ⟨_, rfl, Tells.none fun host hname => ?_⟩
    obtain ⟨sid, -, -, -, r1, -, -, -, h1, -⟩ := hname
    have hlen := (reads_iff.mp h1).1
    rw [List.length_drop] at hlen
    omega
  rw [if_neg hshort]
  obtain ⟨b, hb, hsid⟩ := idx_toNat (show 34 < body.length by omega)
  simp only [hb, hsid, bind, Except.bind]
  -- the session id
  rcases reads_or 1 (show 34 ≤ body.length by omega) hle with
    ⟨sid, r1, h1⟩ | ⟨hno, hlong⟩
  rotate_left
  · rw [if_pos hlong]
    refine ⟨_, rfl, Tells.none fun host hname => ?_⟩
    obtain ⟨sid, -, -, -, r1, -, -, -, h1, -⟩ := hname
    exact hno sid r1 (hdrop ▸ h1)
  obtain ⟨hend, hlen, -, rfl⟩ := h1.at (by omega) hle
  rw [hdrop] at h1
  rw [hlen, if_neg (by omega)]
  generalize 34 + 1 + sid.length = p at h1 hend ⊢
  -- the cipher suites
  rcases reads_or 2 hend hle with ⟨cs, r2, h2⟩ | ⟨hno, hlong⟩
  rotate_left
  · have hnone : ∀ host, ¬ BodyNames body host := by
      intro host hname
      obtain ⟨cs, -, -, r2, -, -, h2, -⟩ := (bodyNames_sid h1).mp hname
      exact hno cs r2 h2
    by_cases hp : p + 2 > body.length
    · rw [if_pos hp]
      exact ⟨_, rfl, Tells.none hnone⟩
    · rw [if_neg hp, be16_eq (by omega)]
      simp only [if_pos hlong]
      exact ⟨_, rfl, Tells.none hnone⟩
  obtain ⟨hend2, hlen2, -, rfl⟩ := h2.at hend hle
  rw [if_neg (by omega), be16_eq (by omega)]
  simp only [hlen2]
  rw [if_neg (by omega)]
  generalize p + 2 + cs.length = q at h2 hend2 ⊢
  -- the compression methods
  rcases reads_or 1 hend2 hle with ⟨comp, r3, h3⟩ | ⟨hno, hlong⟩
  rotate_left
  · have hnone : ∀ host, ¬ BodyNames body host := by
      intro host hname
      obtain ⟨comp, -, r3, -, h3, -⟩ := (bodyNames_cs h1 h2).mp hname
      exact hno comp r3 h3
    by_cases hq : q ≥ body.length
    · rw [if_pos hq]
      exact ⟨_, rfl, Tells.none hnone⟩
    · obtain ⟨c, hc, hcomp⟩ := idx_toNat (show q < body.length by omega)
      rw [if_neg hq]
      simp only [hc, hcomp, if_pos hlong]
      exact ⟨_, rfl, Tells.none hnone⟩
  obtain ⟨hend3, hlen3, -, rfl⟩ := h3.at hend2 hle
  obtain ⟨c, hc, hcomp⟩ := idx_toNat (show q < body.length by omega)
  rw [if_neg (by omega)]
  simp only [hc, hcomp, hlen3]
  rw [if_neg (by omega)]
  generalize q + 1 + comp.length = e at h3 hend3 ⊢
  -- the extensions
  rcases reads_or 2 hend3 hle with ⟨exts, r4, h4⟩ | ⟨hno, hlong⟩
  rotate_left
  · have hnone : ∀ host, ¬ BodyNames body host := by
      intro host hname
      obtain ⟨exts, r4, h4, -⟩ := (bodyNames_comp h1 h2 h3).mp hname
      exact hno exts r4 h4
    by_cases he : e + 2 > body.length
    · rw [if_pos he]
      exact ⟨_, rfl, Tells.none hnone⟩
    · rw [if_neg he, be16_eq (by omega)]
      simp only [if_pos hlong]
      exact ⟨_, rfl, Tells.none hnone⟩
  obtain ⟨hend4, hlen4, hexts, -⟩ := h4.at hend3 hle
  rw [if_neg (by omega), be16_eq (by omega)]
  simp only [hlen4]
  rw [if_neg (by omega)]
  obtain ⟨r, hr, htells⟩ := sniExtensions_spec hend4 (e + 2)
  refine ⟨r, hr, fun host => (htells host).trans ?_⟩
  rw [hexts, bodyNames_exts h1 h2 h3 h4]

/-- A handshake message that starts as a ClientHello of 34 bytes. -/
def Short (payload : Bytes) : Prop :=
  38 ≤ payload.length ∧ payload.take 4 = [0x01, 0, 0, 34]

instance (payload : Bytes) : Decidable (Short payload) :=
  inferInstanceAs (Decidable (_ ∧ _))

/-- That a body is so short is in the length it has been given. -/
theorem short_iff {payload : Bytes} (hlen : 4 ≤ payload.length)
    (h0 : payload[0] = 0x01) :
    Short payload
      ↔ 38 ≤ payload.length ∧ beNat (sub payload 1 (1 + 3)) = 34 := by
  have htake : payload.take 4 = 0x01 :: sub payload 1 (1 + 3) := by
    have hcons := sub_cons (show 0 < 4 by decide) hlen
    rw [h0] at hcons
    exact hcons
  have hthree : (sub payload 1 (1 + 3)).length = 3 := by
    rw [sub_length]
    omega
  unfold Short
  rw [htake]
  refine and_congr_right fun _ => ⟨fun h => ?_, fun h => ?_⟩
  · rw [(List.cons.inj h).2]
    rfl
  · have hbytes := beBytes_beNat (sub payload 1 (1 + 3))
    rw [hthree, h] at hbytes
    rw [← hbytes]
    rfl

/-- A body of any other length is not short. -/
theorem not_short {bs body rest : Bytes} (h : Reads 3 bs body rest)
    (hbody : body.length ≠ 34) : ¬ Short (0x01 :: bs) := by
  intro hshort
  have hlen := hshort.1
  have hle := Nat.le_refl (0x01 :: bs).length
  have hreads : Reads 3 (sub (0x01 :: bs) 1 (0x01 :: bs).length) body rest := by
    have hsub : sub (0x01 :: bs) 1 (0x01 :: bs).length = bs := by simp [sub]
    rw [hsub]
    exact h
  obtain ⟨-, hbytes, -⟩ := hreads.at (by omega) hle
  obtain ⟨-, h34⟩ := (short_iff (by omega) rfl).mp hshort
  omega

/-- A ClientHello tells its host, or panics where its body is so short. -/
theorem sniFromClientHello_spec (payload : Bytes) :
    (∃ r, sniFromClientHello payload = .ok r ∧ ¬ Short payload
      ∧ Tells r (Names payload))
    ∨ Short payload
      ∧ sniFromClientHello payload = .error (.panic .outOfRange) := by
  have hle := Nat.le_refl payload.length
  unfold sniFromClientHello
  by_cases hfour : payload.length < 4
  · rw [if_pos hfour]
    refine .inl ⟨_, rfl, fun h => absurd h.1 (by omega), Tells.none ?_⟩
    intro host h
    obtain ⟨bs, body, rest, rfl, h1, -⟩ := h
    have hlen := (reads_iff.mp h1).1
    rw [List.length_cons] at hfour
    omega
  rw [if_neg hfour, idx_ok (by omega)]
  have hcons := sub_cons (show 0 < payload.length by omega) hle
  rw [sub_all] at hcons
  simp only [bind, Except.bind]
  by_cases h0 : payload[0] = 0x01
  rotate_left
  · rw [if_pos h0]
    refine .inl ⟨_, rfl, ?_, Tells.none ?_⟩
    · intro h
      obtain ⟨-, h⟩ := h
      rw [hcons] at h
      exact h0 (List.cons.inj h).1
    · intro host h
      obtain ⟨bs, body, rest, rfl, -⟩ := h
      exact h0 rfl
  rw [h0] at hcons
  rw [if_neg (not_not_intro h0), idx_ok (by omega), idx_ok (by omega),
    idx_ok (by omega)]
  have hbytes : beNat [payload[1], payload[2], payload[3]]
      = beNat (sub payload 1 (1 + 3)) := by
    have hnil : sub payload (1 + 1 + 1 + 1) (1 + 3) = [] := by simp [sub]
    rw [sub_cons (by omega) (by omega), sub_cons (by omega) (by omega),
      sub_cons (by omega) (by omega), hnil]
  simp only [hbytes]
  rw [short_iff (by omega) h0]
  rcases reads_or 3 (show 1 ≤ payload.length by omega) hle with
    ⟨body, rest, h1⟩ | ⟨hno, hlong⟩
  · obtain ⟨hend, hlen, hbody, -⟩ := h1.at (by omega) hle
    rw [hlen, if_neg (by omega), slice_ok (by omega) (by omega),
      show sub payload 4 (4 + body.length) = body from hbody]
    simp only
    by_cases h34 : body.length = 34
    · exact .inr ⟨⟨by omega, h34⟩, sniFromBody_short h34⟩
    · obtain ⟨r, hr, htells⟩ := sniFromBody_spec h34
      refine .inl ⟨r, hr, fun h => h34 h.2, fun host => (htells host).trans ?_⟩
      constructor
      · exact fun hname => ⟨_, body, rest, hcons, h1, hname⟩
      · intro h
        obtain ⟨bs, body', rest', hpayload, h1', hname⟩ := h
        obtain ⟨-, rfl⟩ := List.cons.inj (hcons.symm.trans hpayload)
        obtain ⟨rfl, -⟩ := h1'.unique h1
        exact hname
  · rw [if_pos (by omega)]
    refine .inl ⟨_, rfl, fun h => by omega, Tells.none ?_⟩
    intro host h
    obtain ⟨bs, body, rest, hpayload, h1, -⟩ := h
    obtain ⟨-, rfl⟩ := List.cons.inj (hcons.symm.trans hpayload)
    exact hno body rest h1

end Wrtg.TlsSni

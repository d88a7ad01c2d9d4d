/-
Whom the Worker's script connects to (`openwrt/cf-worker.js`).

`Ipv4.text` is the dotted quad of an address. `ipv4ToInt` takes these
texts and no others (`ipv4ToInt_iff`), `inCidr` compares the addresses
above the host bits (`inCidr_iff`), and `fetch` connects for an
`Admitted` request only (`fetch_iff`).
-/
import Wrtg.WorkerScript

namespace Wrtg.WorkerScript

open Lib.Ecma

-- ========================================================== addresses

structure Ipv4 where
  a : UInt8
  b : UInt8
  c : UInt8
  d : UInt8

def Ipv4.value (q : Ipv4) : Nat :=
  ((q.a.toNat * 256 + q.b.toNat) * 256 + q.c.toNat) * 256 + q.d.toNat

/-- The four octets in decimal, with dots between them. -/
def Ipv4.text (q : Ipv4) : JsString :=
  [0x2E].intercalate
    ([q.a, q.b, q.c, q.d].map fun octet => decimalText octet.toNat)

/-- The address agrees with the network's in its first `pre` bits. -/
def Ipv4.InCidr (q : Ipv4) (network : JsString) (pre : Int) : Prop :=
  ∃ net : Ipv4, network = net.text
    ∧ q.value / 2 ^ (32 - pre).toNat = net.value / 2 ^ (32 - pre).toNat

def Ipv4.InTelegram (q : Ipv4) : Prop :=
  ∃ cidr ∈ TELEGRAM_CIDRS, q.InCidr cidr.1 cidr.2

theorem Ipv4.value_lt (q : Ipv4) : q.value < 2 ^ 32 := by
  have ha := q.a.toNat_lt
  have hb := q.b.toNat_lt
  have hc := q.c.toNat_lt
  have hd := q.d.toNat_lt
  unfold Ipv4.value
  omega

/-- A part is the decimal text of an octet. -/
theorem octet_iff {part : JsString} :
    (test octetPattern part = true ∧ decimalValue part ≤ 255)
      ↔ ∃ octet : UInt8, part = decimalText octet.toNat := by
  constructor
  · intro h
    obtain ⟨hmatch, hle⟩ := h
    have hoctet : ∀ s, decimalValue s ≤ 255 → decimalText (decimalValue s) = s →
        ∃ octet : UInt8, s = decimalText octet.toNat := by
      intro s hs htext
      refine ⟨.ofNat (decimalValue s), ?_⟩
      rw [UInt8.toNat_ofNat_of_lt' (show _ < 256 by omega), htext]
    refine hoctet part hle ?_
    rw [test_iff, octetPattern, RegularExpression.matches'_add,
      Language.mem_add, RegularExpression.matches'_mul,
      Language.mem_mul] at hmatch
    rcases hmatch with hzero | ⟨x, hx, ds, hds, rfl⟩
    · rw [show part = [0x30] from hzero]
      decide
    · obtain ⟨d, hlo, hhi, rfl⟩ := mem_charRange.mp hx
      obtain ⟨-, -, hall⟩ := (mem_counted (by decide)).mp hds
      have hd : 0x30 ≤ d := UInt16.le_trans (by decide) hlo
      refine decimalText_value ?_ (by simp) ?_
      · intro c hc
        rcases List.mem_cons.mp hc with rfl | hc
        · exact ⟨hd, hhi⟩
        · exact hall c hc
      · intro hz
        cases hz
        exact absurd hlo (by decide)
  · intro h
    obtain ⟨octet, rfl⟩ := h
    obtain ⟨hdigits, hvalue⟩ := decimalText_spec octet.toNat
    have hlt := octet.toNat_lt
    refine ⟨?_, by omega⟩
    rw [test_iff, octetPattern, RegularExpression.matches'_add,
      Language.mem_add, RegularExpression.matches'_mul, Language.mem_mul]
    have hshape : ∀ n < 256, n = 0 ∨ (decimalText n).length ≤ 3
        ∧ ∃ d ∈ (decimalText n).head?, 0x31 ≤ d := by decide +kernel
    rcases hshape octet.toNat hlt with hzero | ⟨hlen, d, hd, hlo⟩
    · rw [hzero]
      exact .inl rfl
    · obtain ⟨ds, htext⟩ := List.head?_eq_some_iff.mp hd
      rw [htext] at hdigits hlen ⊢
      have hd := hdigits d (List.mem_cons_self ..)
      refine .inr ⟨[d], mem_charRange.mpr ⟨d, hlo, hd.2, rfl⟩, ds, ?_, rfl⟩
      refine (mem_counted (by decide)).mpr ⟨Nat.zero_le _, ?_, ?_⟩
      · rw [List.length_cons] at hlen
        omega
      · exact fun c hc => hdigits c (List.mem_cons_of_mem d hc)

theorem decimalText_inj {n m : Nat} (h : decimalText n = decimalText m) :
    n = m := by
  rw [← (decimalText_spec n).2, h, (decimalText_spec m).2]

/-- One round of the loop takes an octet. -/
theorem octetsToInt_cons {part : JsString} {parts : List JsString} {r : Nat}
    (hr : r < 2 ^ 24) {n : Int} :
    octetsToInt (part :: parts) r = some n
      ↔ ∃ octet : UInt8, part = decimalText octet.toNat
        ∧ octetsToInt parts ((r * 256 + octet.toNat : Nat) : Int)
          = some n := by
  rw [octetsToInt]
  by_cases h : ∃ octet : UInt8, part = decimalText octet.toNat
  · obtain ⟨ht, hle⟩ := octet_iff.mpr h
    obtain ⟨octet, rfl⟩ := h
    have hlt := octet.toNat_lt
    have hshift : unsignedShiftRight ((r : Int) * 256 + octet.toNat) 0
        = ((r * 256 + octet.toNat : Nat) : Int) := by
      rw [← unsignedShiftRight_self (show r * 256 + octet.toNat < 2 ^ 32 by
        omega)]
      push_cast
      rfl
    rw [(decimalText_spec _).2] at hle
    simp only [ht, Bool.not_true, Bool.false_eq_true, if_false,
      (decimalText_spec _).2]
    rw [if_neg (by omega), hshift]
    constructor
    · exact fun h => ⟨octet, rfl, h⟩
    · intro h
      obtain ⟨octet', htext, h⟩ := h
      rwa [decimalText_inj htext]
  · have hnone : (if (!test octetPattern part) = true then none
        else if ((decimalValue part : Nat) : Int) > 255 then none
          else octetsToInt parts
            (unsignedShiftRight ((r : Int) * 256 + decimalValue part) 0))
        = none := by
      split
      · rfl
      · next ht =>
          refine if_pos ?_
          by_contra hle
          exact h (octet_iff.mp ⟨by simpa using ht, by omega⟩)
    constructor
    · intro hsome
      exact absurd (hnone.symm.trans hsome) nofun
    · intro h
      obtain ⟨octet, htext, -⟩ := h
      exact absurd ⟨octet, htext⟩ h

/-- The loop over four parts. -/
theorem octetsToInt_four {p₁ p₂ p₃ p₄ : JsString} {n : Int} :
    octetsToInt [p₁, p₂, p₃, p₄] 0 = some n ↔
      ∃ q : Ipv4, [p₁, p₂, p₃, p₄]
          = [q.a, q.b, q.c, q.d].map (fun o => decimalText o.toNat)
        ∧ n = q.value := by
  have hlt := fun octet : UInt8 => octet.toNat_lt
  constructor
  · intro h
    obtain ⟨a, ha, h⟩ := (octetsToInt_cons (r := 0) (by decide)).mp h
    have hla := hlt a
    obtain ⟨b, hb, h⟩ :=
      (octetsToInt_cons (r := 0 * 256 + a.toNat) (by omega)).mp h
    have hlb := hlt b
    obtain ⟨c, hc, h⟩ := (octetsToInt_cons
      (r := (0 * 256 + a.toNat) * 256 + b.toNat) (by omega)).mp h
    have hlc := hlt c
    obtain ⟨d, hd, h⟩ := (octetsToInt_cons
      (r := ((0 * 256 + a.toNat) * 256 + b.toNat) * 256 + c.toNat)
      (by omega)).mp h
    refine ⟨⟨a, b, c, d⟩, by rw [ha, hb, hc, hd]; rfl, ?_⟩
    rw [← Option.some.inj h, Nat.zero_mul, Nat.zero_add]
    rfl
  · intro h
    obtain ⟨⟨a, b, c, d⟩, hparts, rfl⟩ := h
    simp only [List.map_cons, List.map_nil, List.cons.injEq, and_true]
      at hparts
    obtain ⟨ha, hb, hc, hd⟩ := hparts
    have hla := hlt a
    have hlb := hlt b
    have hlc := hlt c
    refine (octetsToInt_cons (r := 0) (by decide)).mpr ⟨a, ha, ?_⟩
    refine (octetsToInt_cons (by omega)).mpr ⟨b, hb, ?_⟩
    refine (octetsToInt_cons (by omega)).mpr ⟨c, hc, ?_⟩
    refine (octetsToInt_cons (by omega)).mpr ⟨d, hd, ?_⟩
    rw [Nat.zero_mul, Nat.zero_add]
    rfl

/-- `ipv4ToInt` takes the texts of the addresses, each to its value. -/
theorem ipv4ToInt_iff {s : JsString} {n : Int} :
    ipv4ToInt s = some n ↔ ∃ q : Ipv4, s = q.text ∧ n = q.value := by
  have hjoin := @List.intercalate_splitOn _ s _ _ 0x2E
  unfold ipv4ToInt
  constructor
  · intro h
    simp only at h
    split at h
    · cases h
    · next hlen =>
        obtain ⟨p₁, p₂, p₃, p₄, hparts⟩ :=
          List.length_eq_four.mp (not_not.mp hlen)
        rw [hparts] at h hjoin
        obtain ⟨q, htexts, rfl⟩ := octetsToInt_four.mp h
        refine ⟨q, ?_, rfl⟩
        rw [← hjoin, htexts]
        rfl
  · intro h
    obtain ⟨q, rfl, rfl⟩ := h
    have hsplit : q.text.splitOn 0x2E
        = [q.a, q.b, q.c, q.d].map fun o => decimalText o.toNat := by
      refine List.splitOn_intercalate 0x2E ?_ (by simp)
      intro t ht hdot
      obtain ⟨octet, -, rfl⟩ := List.mem_map.mp ht
      exact absurd ((decimalText_spec _).1 _ hdot).1 (by decide)
    rw [hsplit]
    exact octetsToInt_four.mpr ⟨q, rfl, rfl⟩

/-- `inCidr` compares what is above the host bits. -/
theorem inCidr_iff {ip network : JsString} {pre : Int}
    (hpre : 0 ≤ pre ∧ pre ≤ 32) :
    inCidr ip network pre = true
      ↔ ∃ q : Ipv4, ip = q.text ∧ q.InCidr network pre := by
  have hvalues : inCidr ip network pre = true ↔ ∃ value base,
      ipv4ToInt ip = some value ∧ ipv4ToInt network = some base
        ∧ bitAnd value (if pre = 0 then 0
            else unsignedShiftRight (shiftLeft 0xffffffff (32 - pre)) 0)
          = bitAnd base (if pre = 0 then 0
            else unsignedShiftRight (shiftLeft 0xffffffff (32 - pre)) 0) := by
    unfold inCidr
    cases ipv4ToInt ip <;> cases ipv4ToInt network <;> simp
  have hcompare : ∀ q net : Ipv4,
      bitAnd q.value (if pre = 0 then 0
          else unsignedShiftRight (shiftLeft 0xffffffff (32 - pre)) 0)
        = bitAnd net.value (if pre = 0 then 0
          else unsignedShiftRight (shiftLeft 0xffffffff (32 - pre)) 0)
      ↔ q.value / 2 ^ (32 - pre).toNat = net.value / 2 ^ (32 - pre).toNat := by
    intro q net
    have hq := q.value_lt
    have hnet := net.value_lt
    by_cases hzero : pre = 0
    · subst hzero
      have hand : ∀ x, bitAnd x 0 = 0 := by
        intro x
        have hzero : toInt32 0 = 0#32 := rfl
        unfold bitAnd
        rw [hzero, BitVec.and_zero]
        rfl
      have hlow : (32 - (0 : Int)).toNat = 32 := rfl
      rw [if_pos rfl, hand, hand, hlow, Nat.div_eq_of_lt hq,
        Nat.div_eq_of_lt hnet]
      exact ⟨fun _ => rfl, fun _ => rfl⟩
    · rw [if_neg hzero]
      obtain ⟨k, hk⟩ := Int.eq_ofNat_of_zero_le (show 0 ≤ 32 - pre by omega)
      rw [hk, Int.toNat_natCast]
      exact bitAnd_mask_iff hq hnet (toInt32_mask (by omega))
  rw [hvalues]
  constructor
  · intro h
    obtain ⟨value, base, hip, hnet, heq⟩ := h
    obtain ⟨q, rfl, rfl⟩ := ipv4ToInt_iff.mp hip
    obtain ⟨net, rfl, rfl⟩ := ipv4ToInt_iff.mp hnet
    exact ⟨q, rfl, net, rfl, (hcompare q net).mp heq⟩
  · intro h
    obtain ⟨q, rfl, net, rfl, heq⟩ := h
    exact ⟨q.value, net.value, ipv4ToInt_iff.mpr ⟨q, rfl, rfl⟩,
      ipv4ToInt_iff.mpr ⟨net, rfl, rfl⟩, (hcompare q net).mpr heq⟩

theorem isTelegramIp_iff (s : JsString) :
    isTelegramIp s = true ↔ ∃ q : Ipv4, s = q.text ∧ q.InTelegram := by
  have hpre : ∀ cidr ∈ TELEGRAM_CIDRS, 0 ≤ cidr.2 ∧ cidr.2 ≤ 32 := by
    decide
  unfold isTelegramIp Ipv4.InTelegram
  rw [List.any_eq_true]
  constructor
  · intro h
    obtain ⟨cidr, hmem, hin⟩ := h
    obtain ⟨q, rfl, hq⟩ := (inCidr_iff (hpre cidr hmem)).mp hin
    exact ⟨q, rfl, cidr, hmem, hq⟩
  · intro h
    obtain ⟨q, rfl, cidr, hmem, hq⟩ := h
    exact ⟨cidr, hmem, (inCidr_iff (hpre cidr hmem)).mpr ⟨q, rfl, hq⟩⟩

-- ============================================================== fetch

/-- Lower case of the letters A to Z alone. -/
def asciiLower (s : JsString) : JsString :=
  s.map fun c => if 0x41 ≤ c ∧ c ≤ 0x5A then c + 0x20 else c

/-- The request may have its tunnel to this address. -/
structure Admitted (request : Request) (env : Env) (addr : Address) :
    Prop where
  upgrade : ∃ value, request.headers "Upgrade" = some value
    ∧ asciiLower (isomorphicDecode value) = js "websocket"
  path : request.pathname = js "/apiws"
  token : ∃ token value, env.WRTG_TOKEN = .string token ∧ token ≠ []
    ∧ request.headers "X-WRTG-Token" = some value
    ∧ isomorphicDecode value = token
  dst : ∃ q : Ipv4, request.param "dst" = some q.text
    ∧ addr.hostname = q.text ∧ q.InTelegram
  port : ∃ portText, orElse (request.param "port") (js "443") = portText
    ∧ Digits portText ∧ 1 ≤ portText.length ∧ portText.length ≤ 5
    ∧ addr.port = decimalValue portText
    ∧ (addr.port = 80 ∨ addr.port = 443 ∨ addr.port = 5222)

/-- No other letter of a header becomes one of ASCII. -/
theorem toLowerCase_iff {bytes : List UInt8} {t : JsString}
    (ht : ∀ c ∈ t, c < 0x80) :
    toLowerCase (isomorphicDecode bytes) = t
      ↔ asciiLower (isomorphicDecode bytes) = t := by
  have hunit : ∀ b : UInt8, ∀ t : UInt16, t < 0x80 →
      (toLowerCase [b.toUInt16] = [t] ↔ asciiLower [b.toUInt16] = [t]) := by
    intro b t ht
    have hall : ∀ i < 16, ∀ j < 16,
        toLowerCase [(UInt8.ofNat (i * 16 + j)).toUInt16]
        = asciiLower [(UInt8.ofNat (i * 16 + j)).toUInt16]
        ∨ (toLowerCase [(UInt8.ofNat (i * 16 + j)).toUInt16]
            ++ asciiLower [(UInt8.ofNat (i * 16 + j)).toUInt16]).all
              (0x80 ≤ ·) = true := by
      decide +kernel
    have hlt := b.toNat_lt
    have hb := hall (b.toNat / 16) (by omega) (b.toNat % 16) (by omega)
    rw [Nat.div_add_mod', UInt8.ofNat_toNat] at hb
    rcases hb with heq | hhigh
    · rw [heq]
    · have hhigh := fun c hc =>
        of_decide_eq_true (List.all_eq_true.mp hhigh c hc)
      have hno : ∀ c, 0x80 ≤ c → c ≠ t := by
        intro c hc h
        subst h
        exact absurd ht (UInt16.not_lt.mpr hc)
      constructor
      · intro h
        exact absurd rfl (hno t (hhigh t (by rw [h]; simp)))
      · intro h
        exact absurd rfl (hno t (hhigh t (by rw [h]; simp)))
  induction bytes generalizing t with
  | nil => exact Iff.rfl
  | cons b bytes ih =>
      cases t with
      | nil => exact ⟨nofun, nofun⟩
      | cons c t =>
          have hc := hunit b c (ht c (List.mem_cons_self ..))
          have ih := ih fun d hd => ht d (List.mem_cons_of_mem c hd)
          unfold toLowerCase asciiLower at hc ih ⊢
          simp only [isomorphicDecode, List.map_cons, List.map_nil,
            List.cons.injEq, and_true] at hc ih ⊢
          exact and_congr hc ih

theorem portPattern_iff (s : JsString) :
    test portPattern s = true ↔ 1 ≤ s.length ∧ s.length ≤ 5 ∧ Digits s := by
  rw [test_iff]
  exact mem_counted (by decide)

theorem Ipv4.text_ne_nil (q : Ipv4) : q.text ≠ [] := by
  unfold Ipv4.text
  simp [List.intercalate]

theorem upgrade_iff (value : Option (List UInt8)) :
    toLowerCase (isomorphicDecode (value.getD [])) = js "websocket"
      ↔ ∃ v, value = some v
        ∧ asciiLower (isomorphicDecode v) = js "websocket" := by
  have hall : (js "websocket").all (· < 0x80) = true := by decide +kernel
  have hascii : ∀ c ∈ js "websocket", c < 0x80 :=
    fun c hc => of_decide_eq_true (List.all_eq_true.mp hall c hc)
  rw [toLowerCase_iff hascii]
  cases value with
  | none => exact ⟨nofun, nofun⟩
  | some v =>
      constructor
      · exact fun h => ⟨v, rfl, h⟩
      · intro h
        obtain ⟨_, hv, h⟩ := h
        cases hv
        exact h

theorem token_iff (request : Request) (env : Env) :
    (env.WRTG_TOKEN.truthy = true
        ∧ request.header "X-WRTG-Token" = env.WRTG_TOKEN)
      ↔ ∃ token value, env.WRTG_TOKEN = .string token ∧ token ≠ []
        ∧ request.headers "X-WRTG-Token" = some value
        ∧ isomorphicDecode value = token := by
  unfold Request.header
  cases request.headers "X-WRTG-Token" with
  | none =>
      constructor
      · intro h
        obtain ⟨htruthy, heq⟩ := h
        rw [← heq] at htruthy
        cases htruthy
      · intro h
        obtain ⟨_, _, _, _, h, _⟩ := h
        cases h
  | some value =>
      constructor
      · intro h
        obtain ⟨htruthy, heq⟩ := h
        refine ⟨isomorphicDecode value, value, heq.symm, ?_, rfl, rfl⟩
        intro hnil
        rw [← heq] at htruthy
        simp only [Binding.truthy, hnil] at htruthy
        cases htruthy
      · intro h
        obtain ⟨token, _, henv, hne, hvalue, rfl⟩ := h
        cases hvalue
        rw [henv]
        refine ⟨?_, rfl⟩
        simpa [Binding.truthy] using hne

/-- An address out of the query is the parameter's text. -/
theorem dst_iff (dst : Option JsString) (q : Ipv4) :
    orElse dst [] = q.text ↔ dst = some q.text := by
  have hne := q.text_ne_nil
  unfold orElse
  cases dst with
  | none => exact ⟨fun h => absurd h.symm hne, nofun⟩
  | some s =>
      simp only [Option.some.injEq]
      split
      · next hnil =>
          rw [List.isEmpty_iff.mp hnil]
      · exact Iff.rfl

/-- The handler connects for an admitted request, and for no other. -/
theorem fetch_iff (request : Request) (env : Env) (opened : Bool)
    (addr : Address) :
    (fetch request env opened).1 = some addr ↔ Admitted request env addr := by
  have hports : ∀ port : Int, ALLOWED_PORTS.contains port = true
      ↔ port = 80 ∨ port = 443 ∨ port = 5222 := by
    intro port
    simp [ALLOWED_PORTS]
  constructor
  · intro h
    unfold fetch at h
    simp only at h
    split at h
    · cases h
    next hupgrade =>
    split at h
    · cases h
    next hpath =>
    split at h
    · cases h
    next htruthy =>
    split at h
    · cases h
    next htoken =>
    split at h
    · cases h
    next hport =>
    split at h
    · cases h
    next hdst =>
    cases h
    rw [Bool.or_eq_true, not_or, Bool.not_eq_true', Bool.not_eq_false,
      Bool.not_eq_true', Bool.not_eq_false, hports] at hdst
    obtain ⟨q, hq, hin⟩ := (isTelegramIp_iff _).mp hdst.1
    obtain ⟨hlo, hhi, hdigits⟩ :=
      (portPattern_iff _).mp (by simpa using hport)
    exact
      { upgrade := (upgrade_iff _).mp (not_not.mp hupgrade)
        path := not_not.mp hpath
        token := (token_iff request env).mp
          ⟨by simpa using htruthy, not_not.mp htoken⟩
        dst := ⟨q, (dst_iff _ q).mp hq, hq, hin⟩
        port := ⟨_, rfl, hdigits, hlo, hhi, rfl, hdst.2⟩ }
  · intro h
    obtain ⟨hupgrade, hpath, htoken, ⟨q, hdst, hhost, hin⟩,
      portText, htext, hdigits, hlo, hhi, hport, hallowed⟩ := h
    obtain ⟨htruthy, htoken⟩ := (token_iff request env).mpr htoken
    have htest := (portPattern_iff portText).mpr ⟨hlo, hhi, hdigits⟩
    have hip := (isTelegramIp_iff q.text).mpr ⟨q, rfl, hin⟩
    have hcontains := (hports addr.port).mpr hallowed
    unfold fetch
    simp only [(upgrade_iff _).mpr hupgrade, hpath, htruthy, htoken, htext,
      (dst_iff _ q).mpr hdst, htest, hip, ← hport, hcontains]
    rw [if_neg (not_not_intro rfl), if_neg (not_not_intro rfl),
      if_neg (by decide), if_neg (not_not_intro rfl), if_neg (by decide),
      if_neg (by decide), ← hhost]

example :
    fetch
        { headers := fun name =>
            if name = "Upgrade" then
              some [87, 101, 98, 83, 111, 99, 107, 101, 116]
            else some [116]
          pathname := js "/apiws"
          searchParams := [(js "dst", js "149.154.167.51")] }
        { WRTG_TOKEN := .string (js "t") } true
      = (some { hostname := js "149.154.167.51", port := 443 },
        { status := 101, body := none }) := by
  decide +kernel

/-- The Worker is no open relay: it connects for admitted requests only,
and its table takes the dotted quads inside it and nothing else. -/
theorem never_open_relay :
    (∀ (request : Request) (env : Env) (opened : Bool) (addr : Address),
      (fetch request env opened).1 = some addr ↔ Admitted request env addr)
    ∧ ∀ s : JsString, isTelegramIp s = true
      ↔ ∃ q : Ipv4, s = q.text ∧ q.InTelegram :=
  ⟨fetch_iff, isTelegramIp_iff⟩

end Wrtg.WorkerScript

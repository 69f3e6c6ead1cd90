import Watz.Lib.Bytes

/-!
# Keys derived from the hardware unique key

Every secret of the kernel is an HMAC under the hardware unique key (`core/kernel/huk_subkey.c`),
the seed of the attestation key among them.  What keeps the keys apart is that no two callers
have the same message authenticated.  This file models the derivation and all its callers, and
shows that their messages differ, in both builds: with `CFG_CORE_HUK_SUBKEY_COMPAT` two of the
callers leave out the number that says what the key is for.
-/

namespace Watz.OpTee

open Lib

/-! ## The derivation -/

/-- `enum huk_subkey_usage`. -/
inductive HukSubkeyUsage where
  | rpmb
  | ssk
  | dieId
  | uniqueTa
  | taEnc
  | se050
  | attestation
deriving DecidableEq, Repr

/-- The numbers the source assigns. -/
def HukSubkeyUsage.toUInt32 : HukSubkeyUsage → UInt32
  | rpmb => 0
  | ssk => 1
  | dieId => 2
  | uniqueTa => 3
  | taEnc => 4
  | se050 => 5
  | attestation => 6

/-- A MAC context: the key and what has been fed to it. -/
structure MacCtx where
  key : List UInt8
  input : List UInt8
deriving DecidableEq, Repr

/-- `crypto_mac_update`. -/
def MacCtx.update (ctx : MacCtx) (data : List UInt8) : MacCtx :=
  { ctx with input := ctx.input ++ data }

/-- `mac_usage`: the number as it lies in memory. -/
def macUsage (ctx : MacCtx) (usage : HukSubkeyUsage) : MacCtx := ctx.update (le32 usage.toUInt32)

/-- `get_dummy_die_id`. -/
def getDummyDieId (len : ℕ) : List UInt8 :=
  (List.range len).map fun i => [0x42, 0x45, 0x45, 0x46].getD (i % 4) 0

/-- `TEE_FS_KM_CHIP_ID_LENGTH`. -/
def teeFsKmChipIdLength : ℕ := 32

/-- `"ONLY_FOR_tee_fs_ssk"` with its terminating zero. -/
def sskStr : List UInt8 :=
  [0x4f, 0x4e, 0x4c, 0x59, 0x5f, 0x46, 0x4f, 0x52, 0x5f, 0x74, 0x65, 0x65, 0x5f, 0x66, 0x73, 0x5f,
    0x73, 0x73, 0x6b, 0x00]

/-- `huk_compat`. -/
def hukCompat (ctx : MacCtx) : HukSubkeyUsage → MacCtx
  | .rpmb => ctx
  | .ssk => (ctx.update (getDummyDieId teeFsKmChipIdLength)).update sskStr
  | usage => macUsage ctx usage

/-- `HUK_SUBKEY_MAX_LEN`. -/
def hukSubkeyMaxLen : ℕ := 32

/-- A derived key: the HMAC computation at `crypto_mac_final`, and how many bytes of its result
are the key. -/
structure Subkey where
  ctx : MacCtx
  len : ℕ
deriving DecidableEq, Repr

/-- `huk_subkey_derive` in a build with or without `CFG_CORE_HUK_SUBKEY_COMPAT`.  The data may be
absent; no key is derived if one of the cryptographic calls fails, which is not modelled. -/
def hukSubkeyDerive (compat : Bool) (huk : List UInt8) (usage : HukSubkeyUsage)
    (constData : Option (List UInt8)) (subkeyLen : ℕ) : Option Subkey :=
  if hukSubkeyMaxLen < subkeyLen then none
  else
    let ctx : MacCtx := ⟨huk, []⟩
    let ctx := if compat then hukCompat ctx usage else macUsage ctx usage
    let ctx := match constData with
      | some data => ctx.update data
      | none => ctx
    some ⟨ctx, subkeyLen⟩

/-! ## The callers -/

section Callers

variable (compat : Bool) (huk : List UInt8)

/-- `tee_rpmb_key_gen`: the card identification without product revision and checksum. -/
def teeRpmbKeyGen (cid : Bytes 16) (len : ℕ) : Option Subkey :=
  if len ≠ 32 then none
  else hukSubkeyDerive compat huk .rpmb (some ((cid.toList.set 9 0).set 15 0)) len

/-- `tee_fs_init_key_manager`. -/
def teeFsInitKeyManager : Option Subkey := hukSubkeyDerive compat huk .ssk none 32

/-- `tee_otp_get_die_id`, where the platform does not provide its own. -/
def teeOtpGetDieId (len : ℕ) : Option Subkey := hukSubkeyDerive compat huk .dieId none len

/-- `tee_otp_get_ta_enc_key`. -/
def teeOtpGetTaEncKey (taPubKeyModulus : List UInt8) (len : ℕ) : Option Subkey :=
  hukSubkeyDerive compat huk .taEnc (some taPubKeyModulus) len

/-- `system_derive_ta_unique_key`: the identity of the application, and data it may add. -/
def systemDeriveTaUniqueKey (uuid : Bytes 16) (extra : List UInt8) (keySize : ℕ) : Option Subkey :=
  if 1024 < extra.length ∨ keySize < 16 ∨ 32 < keySize then none
  else hukSubkeyDerive compat huk .uniqueTa (some (uuid.toList ++ extra)) keySize

/-- The keys of the secure channel to the SE050. -/
inductive Scp03Key where
  | dek
  | mac
  | enc
deriving DecidableEq, Repr

/-- The names `se050_scp03_subkey_derive` gives them. -/
def Scp03Key.name : Scp03Key → List UInt8
  | dek => [0x64, 0x65, 0x6b]
  | mac => [0x6d, 0x61, 0x63]
  | enc => [0x65, 0x6e, 0x63]

/-- One round of the loop of `se050_scp03_subkey_derive`. -/
def se050Scp03SubkeyDerive (dieId : Bytes 16) (key : Scp03Key) : Option Subkey :=
  hukSubkeyDerive compat huk .se050 (some (key.name ++ dieId.toList)) 16

/-- `derive_attestation_seed`, with the identifier of the SE050 keys. -/
def deriveAttestationSeed : Option Subkey := hukSubkeyDerive compat huk .se050 none hukSubkeyMaxLen

/-- A call of one of them, with the data it depends on.  The modulus of the key that signs
applications has at least 1024 bits. -/
inductive SubkeyCall where
  | rpmb (cid : Bytes 16) (len : ℕ)
  | ssk
  | dieId (len : ℕ)
  | taEnc (modulus : { m : List UInt8 // 128 ≤ m.length }) (len : ℕ)
  | uniqueTa (uuid : Bytes 16) (extra : List UInt8) (keySize : ℕ)
  | scp03 (key : Scp03Key) (dieId : Bytes 16)
  | attestation

/-- Who is calling. -/
inductive SubkeyCaller where
  | rpmb
  | ssk
  | dieId
  | taEnc
  | uniqueTa
  | scp03 (key : Scp03Key)
  | attestation
deriving DecidableEq, Repr

def SubkeyCall.caller : SubkeyCall → SubkeyCaller
  | rpmb _ _ => .rpmb
  | ssk => .ssk
  | dieId _ => .dieId
  | taEnc _ _ => .taEnc
  | uniqueTa _ _ _ => .uniqueTa
  | scp03 key _ => .scp03 key
  | attestation => .attestation

/-- The key a call derives. -/
def SubkeyCall.derive : SubkeyCall → Option Subkey
  | rpmb cid len => teeRpmbKeyGen compat huk cid len
  | ssk => teeFsInitKeyManager compat huk
  | dieId len => teeOtpGetDieId compat huk len
  | taEnc modulus len => teeOtpGetTaEncKey compat huk modulus len
  | uniqueTa uuid extra keySize => systemDeriveTaUniqueKey compat huk uuid extra keySize
  | scp03 key id => se050Scp03SubkeyDerive compat huk id key
  | attestation => deriveAttestationSeed compat huk

end Callers

/-! ## The messages -/

/-- The part of a message that comes from the usage. -/
def usageInput (compat : Bool) (usage : HukSubkeyUsage) : List UInt8 :=
  match compat, usage with
  | true, .rpmb => []
  | true, .ssk => getDummyDieId teeFsKmChipIdLength ++ sskStr
  | _, usage => le32 usage.toUInt32

lemma hukSubkeyDerive_eq_some {compat : Bool} {huk : List UInt8} {usage : HukSubkeyUsage}
    {constData : Option (List UInt8)} {len : ℕ} {k : Subkey}
    (h : hukSubkeyDerive compat huk usage constData len = some k) :
    k.ctx.input = usageInput compat usage ++ constData.getD [] := by
  rw [hukSubkeyDerive] at h
  split at h
  · cases h
  · obtain rfl := Option.some.inj h
    cases compat <;> cases usage <;> cases constData <;>
      simp [usageInput, hukCompat, macUsage, MacCtx.update]

/-- What a caller passes: the usage and the data. -/
def SubkeyCall.usage : SubkeyCall → HukSubkeyUsage
  | rpmb _ _ => .rpmb
  | ssk => .ssk
  | dieId _ => .dieId
  | taEnc _ _ => .taEnc
  | uniqueTa _ _ _ => .uniqueTa
  | scp03 _ _ => .se050
  | attestation => .se050

def SubkeyCall.constData : SubkeyCall → List UInt8
  | rpmb cid _ => (cid.toList.set 9 0).set 15 0
  | ssk => []
  | dieId _ => []
  | taEnc modulus _ => modulus
  | uniqueTa uuid extra _ => uuid.toList ++ extra
  | scp03 key id => key.name ++ id.toList
  | attestation => []

variable {c c' : SubkeyCall} {u : HukSubkeyUsage}

lemma SubkeyCall.input_of_derive {compat : Bool} {huk : List UInt8} {k : Subkey}
    (h : c.derive compat huk = some k) :
    k.ctx.input = usageInput compat c.usage ++ c.constData := by
  cases c with
  | rpmb cid len =>
    rw [derive, teeRpmbKeyGen] at h
    split at h
    · cases h
    · exact hukSubkeyDerive_eq_some h
  | uniqueTa uuid extra keySize =>
    rw [derive, systemDeriveTaUniqueKey] at h
    split at h
    · cases h
    · exact hukSubkeyDerive_eq_some h
  | ssk =>
    rw [derive, teeFsInitKeyManager] at h
    exact hukSubkeyDerive_eq_some h
  | dieId len =>
    rw [derive, teeOtpGetDieId] at h
    exact hukSubkeyDerive_eq_some h
  | taEnc modulus len =>
    rw [derive, teeOtpGetTaEncKey] at h
    exact hukSubkeyDerive_eq_some h
  | scp03 key id =>
    rw [derive, se050Scp03SubkeyDerive] at h
    exact hukSubkeyDerive_eq_some h
  | attestation =>
    rw [derive, deriveAttestationSeed] at h
    exact hukSubkeyDerive_eq_some h

/-- The usage is spelled out at the start of the message. -/
def Tagged (compat : Bool) (usage : HukSubkeyUsage) : Prop :=
  usageInput compat usage = le32 usage.toUInt32

lemma tagged_or (compat : Bool) (usage : HukSubkeyUsage) :
    Tagged compat usage ∨ compat = true ∧ (usage = .rpmb ∨ usage = .ssk) := by
  cases compat <;> cases usage <;> simp [Tagged, usageInput]

lemma toUInt32_inj {v : HukSubkeyUsage} (h : u.toUInt32 = v.toUInt32) : u = v := by
  cases u <;> cases v <;> first | rfl | exact absurd h (by decide)

lemma eq_of_tagged {compat : Bool} {v : HukSubkeyUsage} {d e : List UInt8} (hu : Tagged compat u)
    (hv : Tagged compat v) (h : usageInput compat u ++ d = usageInput compat v ++ e) :
    u = v ∧ d = e := by
  rw [hu, hv] at h
  obtain ⟨htag, hdata⟩ := List.append_inj h (by simp)
  exact ⟨toUInt32_inj (le32_inj htag), hdata⟩

/-- The keys of the SE050 and the attestation seed share a usage, nobody else does. -/
lemma SubkeyCall.caller_of_usage (h : c.usage = c'.usage) (hse050 : c.usage ≠ .se050) :
    c.caller = c'.caller := by
  cases c <;> cases c' <;> simp_all [SubkeyCall.usage, SubkeyCall.caller]

lemma SubkeyCall.cases_of_se050 (h : c.usage = .se050) :
    (∃ key id, c = .scp03 key id) ∨ c = .attestation := by
  cases c <;> simp_all [SubkeyCall.usage]

lemma Scp03Key.eq_of_message {key key' : Scp03Key} {id id' : Bytes 16}
    (h : key.name ++ id.toList = key'.name ++ id'.toList) : key = key' := by
  have hlen : ∀ k : Scp03Key, k.name.length = 3 := fun k => by cases k <;> rfl
  have hname := (List.append_inj h ((hlen key).trans (hlen key').symm)).1
  cases key <;> cases key' <;> first | rfl | exact absurd hname (by decide)

lemma constData_ne (husage : c.usage = c'.usage) (hne : c.caller ≠ c'.caller) :
    c.constData ≠ c'.constData := by
  have hse050 : c.usage = .se050 := by
    by_contra h
    exact hne (SubkeyCall.caller_of_usage husage h)
  have hnil : ∀ (key : Scp03Key) (id : Bytes 16), key.name ++ id.toList ≠ [] := by
    intro key id
    cases key <;> simp [Scp03Key.name]
  rcases SubkeyCall.cases_of_se050 hse050 with ⟨key, id, rfl⟩ | rfl <;>
    rcases SubkeyCall.cases_of_se050 (husage ▸ hse050) with ⟨key', id', rfl⟩ | rfl
  · exact fun h => hne (congrArg SubkeyCaller.scp03 (Scp03Key.eq_of_message h))
  · exact hnil key id
  · exact (hnil key' id').symm
  · exact absurd rfl hne

/-! ### The messages without a tag -/

/-- Without a tag the message for the RPMB key has sixteen bytes. -/
lemma length_of_rpmb (h : c.usage = .rpmb) :
    (usageInput true c.usage ++ c.constData).length = 16 := by
  cases c <;> simp_all [SubkeyCall.usage, SubkeyCall.constData, usageInput]

/-- No other message has sixteen bytes. -/
lemma length_ne_of_usage_ne {compat : Bool} (h : c.usage ≠ .rpmb) :
    (usageInput compat c.usage ++ c.constData).length ≠ 16 := by
  have hssk : (getDummyDieId teeFsKmChipIdLength ++ sskStr).length = 52 := by decide
  cases c with
  | rpmb cid len => exact absurd rfl h
  | ssk => cases compat <;> simp [SubkeyCall.usage, SubkeyCall.constData, usageInput, hssk]
  | dieId len => cases compat <;> simp [SubkeyCall.usage, SubkeyCall.constData, usageInput]
  | taEnc modulus len =>
    have hlen := modulus.2
    cases compat <;> simp [SubkeyCall.usage, SubkeyCall.constData, usageInput] <;> omega
  | uniqueTa uuid extra keySize =>
    cases compat <;> simp [SubkeyCall.usage, SubkeyCall.constData, usageInput] <;> omega
  | scp03 key id =>
    cases compat <;> cases key <;>
      simp [SubkeyCall.usage, SubkeyCall.constData, usageInput, Scp03Key.name]
  | attestation => cases compat <;> simp [SubkeyCall.usage, SubkeyCall.constData, usageInput]

/-- The message for the secure storage key without a tag starts with a letter, a tag with a
small number. -/
lemma ssk_ne_of_tagged (hu : Tagged true u) (d e : List UInt8) :
    usageInput true .ssk ++ d ≠ usageInput true u ++ e := by
  intro h
  have hhead := congrArg List.head? h
  rw [hu] at hhead
  cases u <;> exact absurd hhead (by
    simp [usageInput, getDummyDieId, teeFsKmChipIdLength, List.range_succ_eq_map, le32,
      HukSubkeyUsage.toUInt32])

/-- A call with an untagged usage is told from every call with another usage. -/
lemma input_ne_of_untagged {compat : Bool} (hne : c.usage ≠ c'.usage)
    (hc : compat = true ∧ (c.usage = .rpmb ∨ c.usage = .ssk)) :
    usageInput compat c.usage ++ c.constData ≠ usageInput compat c'.usage ++ c'.constData := by
  obtain ⟨rfl, hrpmb | hssk⟩ := hc
  · intro h
    have hlen := length_of_rpmb hrpmb
    rw [h] at hlen
    exact length_ne_of_usage_ne (fun h' => hne (hrpmb.trans h'.symm)) hlen
  · rw [hssk]
    rcases tagged_or true c'.usage with htag | ⟨-, hrpmb | hssk'⟩
    · exact ssk_ne_of_tagged htag _ _
    · intro h
      have hlen := length_of_rpmb hrpmb
      rw [← h, ← hssk] at hlen
      exact length_ne_of_usage_ne (fun h' => hne (h'.trans hrpmb.symm)) hlen
    · exact absurd (hssk.trans hssk'.symm) hne

/-- No two callers have the same message authenticated, whatever their data are and in both
builds; the attestation seed is one of these callers. -/
theorem subkey_inputs_distinct {compat : Bool} {huk : List UInt8} {c c' : SubkeyCall}
    {k k' : Subkey} (hne : c.caller ≠ c'.caller) (hk : c.derive compat huk = some k)
    (hk' : c'.derive compat huk = some k') : k.ctx.input ≠ k'.ctx.input := by
  rw [c.input_of_derive hk, c'.input_of_derive hk']
  by_cases husage : c.usage = c'.usage
  · rw [husage]
    exact fun h => constData_ne husage hne (List.append_cancel_left h)
  rcases tagged_or compat c.usage with htag | huntagged
  · rcases tagged_or compat c'.usage with htag' | huntagged'
    · exact fun h => husage (eq_of_tagged htag htag' h).1
    · exact (input_ne_of_untagged (fun h => husage h.symm) huntagged').symm
  · exact input_ne_of_untagged husage huntagged

/-- The attestation seed and an SE050 key share their usage and differ in their messages. -/
theorem subkey_inputs_distinct_sample :
    ∃ k k', SubkeyCall.derive true [] .attestation = some k
      ∧ SubkeyCall.derive true [] (.scp03 .dek (Bytes.zero 16)) = some k'
      ∧ k.ctx.input ≠ k'.ctx.input :=
  ⟨_, _, rfl, rfl, subkey_inputs_distinct
    (by decide : SubkeyCall.caller .attestation ≠ SubkeyCall.caller (.scp03 .dek (Bytes.zero 16)))
    rfl rfl⟩

end Watz.OpTee

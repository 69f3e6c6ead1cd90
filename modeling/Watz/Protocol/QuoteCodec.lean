import Watz.Attester.Spec
import Watz.Verifier.Spec

/-!
# The quote from the attestation service to the verifier

The service signs a digest of four fields of the quote; the attester copies the quote into
`msg2`, and the verifier computes the digest again from what it has received.  This file shows
that the two digests are computed from the same bytes, that these bytes determine the four
fields, and that a quote which arrives unchanged is accepted.
-/

namespace Watz

open Lib Verifier

/-- The fields of a quote that its signature covers. -/
def Quote.content (q : Quote) : Bytes 32 × UInt32 × Bytes 32 × Bytes 65 :=
  (q.anchor, q.version, q.claimHash, q.attestationKey)

namespace Protocol

/-- The layout of the bytes that are signed. -/
def contentLayout : Layout (Bytes 32 × UInt32 × Bytes 32 × Bytes 65) :=
  (Layout.bytes 32).pair (Layout.word32.pair ((Layout.bytes 32).pair (Layout.bytes 65)))

lemma quoteDigestInput_eq (q : Quote) : quoteDigestInput q = contentLayout.enc q.content :=
  rfl

/-- The bytes that are signed determine the fields. -/
lemma content_of_quoteDigestInput {q q' : Quote}
    (h : quoteDigestInput q = quoteDigestInput q') : q.content = q'.content := by
  rw [quoteDigestInput_eq, quoteDigestInput_eq] at h
  exact contentLayout.enc_inj h

variable {C : Crypto} {key : Pta.AttestationKey}

/-- What the service has generated passes the check of the signature. -/
lemma signatureOk_of_generateQuote (hsign : C.VerifySign) {env : Env Pta.Fn} {claim : List UInt8}
    {anchor : Bytes 32} {anchorSize : ℕ} {q₀ q : Quote} {u : Unit} {s : State}
    (h : Pta.generateQuote C env key claim anchor anchorSize q₀ = .ok u q)
    (hkey : s.ctx.ecdsaAttesterPublicKeyHandle = .key (C.publicKey key.keypair))
    (hquote : s.msgs.msg2.quote = q) : SignatureOk C s := by
  obtain ⟨-, -, -, -, rfl⟩ := Pta.generateQuote_eq_ok.mp h
  refine ⟨_, hkey, ?_⟩
  rw [hquote]
  exact hsign _ _ _

lemma not_signatureOk_of_content {generated : Set Quote} {q : Quote} {s : State}
    (hfree : C.CollisionFree
      (insert (quoteDigestInput q) (Pta.hashQuoteInput '' generated)))
    (hvalid : C.ValidOnlyFor (C.publicKey key.keypair) q.signature
      ((fun p => C.sha256 (Pta.hashQuoteInput p)) '' generated))
    (hcontent : q.content ∉ Quote.content '' generated)
    (hkey : s.ctx.ecdsaAttesterPublicKeyHandle = .key (C.publicKey key.keypair))
    (hquote : s.msgs.msg2.quote = q) : ¬ SignatureOk C s := by
  rintro ⟨k, hk, hverify⟩
  obtain rfl := Obj.key.inj (hkey.symm.trans hk)
  rw [hquote] at hverify
  obtain ⟨p, hp, hdigest⟩ := hvalid _ hverify
  have hinput : Pta.hashQuoteInput p = quoteDigestInput q :=
    hfree (Set.mem_insert_of_mem _ ⟨p, hp, rfl⟩) (Set.mem_insert _ _) hdigest
  exact hcontent ⟨p, hp, content_of_quoteDigestInput hinput⟩

/-- The service and the verifier agree about quotes.  They sign and check the same bytes, and these
determine the signed fields.  A quote that the service generates, the attester sends and the
verifier receives as it was sent is accepted.  A quote is rejected if its signed fields are not
those of a generated one, provided that its signature is valid for digests of generated quotes
only and that the strings involved have no collision. -/
theorem quote_codec_agreement (C : Crypto) (hsign : C.VerifySign) (key : Pta.AttestationKey) :
    (∀ q, Pta.hashQuoteInput q = quoteDigestInput q)
    ∧ (∀ q q', quoteDigestInput q = quoteDigestInput q' →
        q.content = q'.content)
    ∧ (∀ ptaEnv claim anchor anchorSize q₀ q,
        Pta.generateQuote C ptaEnv key claim anchor anchorSize q₀ = .ok () q →
        ∀ env t t', Attester.raNetSendQuote C env q t = .ok () t' →
          ∃ image, t'.ctx.sent = t.ctx.sent ++ [image] ∧
            ∀ (s : State) env',
              s.ctx.ecdsaAttesterPublicKeyHandle = .key (C.publicKey key.keypair) →
              env'.Ok .verifyQuoteSignature Fn.verifyQuoteSignature.sites →
              ∃ s₁ s₂, storeMsg2 image s = .ok () s₁ ∧ s₁.msgs.msg2.quote = q
                ∧ verifyQuoteSignature C env' s₁ = .ok () s₂)
    ∧ ∀ (generated : Set Quote) (q : Quote),
        C.CollisionFree
          (insert (quoteDigestInput q) (Pta.hashQuoteInput '' generated)) →
        C.ValidOnlyFor (C.publicKey key.keypair) q.signature
          ((fun p => C.sha256 (Pta.hashQuoteInput p)) '' generated) →
        q.content ∉ Quote.content '' generated →
        ∀ (s : State) env',
          s.ctx.ecdsaAttesterPublicKeyHandle = .key (C.publicKey key.keypair) →
          s.msgs.msg2.quote = q →
          ∀ u s', verifyQuoteSignature C env' s ≠ .ok u s' := by
  refine ⟨fun q => rfl, fun q q' => content_of_quoteDigestInput, ?_, ?_⟩
  · intro ptaEnv claim anchor anchorSize q₀ q hgen env t t' hsend
    obtain ⟨m, hsent, rfl⟩ := Attester.raNetSendQuote_sent hsend
    refine ⟨Msg2.layout.enc m, hsent, fun s env' hkey hcalls => ?_⟩
    have hstored : (Msg2.layout.dec (Msg2.layout.enc m)).quote = m.quote := by
      rw [Layout.dec_enc]
    have hok : SignatureOk C { s with msgs.msg2 := Msg2.layout.dec (Msg2.layout.enc m) } :=
      signatureOk_of_generateQuote hsign hgen hkey hstored
    exact ⟨_, _, storeMsg2_eq_ok.mpr ⟨by simp, rfl⟩, hstored,
      verifyQuoteSignature_eq_ok.mpr ⟨hcalls, hok, rfl⟩⟩
  · intro generated q hfree hvalid hcontent s env' hkey hquote u s' hrun
    obtain ⟨-, hok, -⟩ := verifyQuoteSignature_eq_ok.mp hrun
    exact not_signatureOk_of_content hfree hvalid hcontent hkey hquote hok

/-- The attestation key of the concrete quote below. -/
def sampleKey : Pta.AttestationKey := ⟨5, Bytes.zero 65⟩

/-- A quote for a claim that is a hash, with an anchor of zeros. -/
def sampleQuote : Quote :=
  Pta.signedQuote Crypto.sample sampleKey 0 (List.replicate 32 3) (Bytes.zero 32)

/-- The attester of the concrete run, with the keys of a session. -/
def sampleAttester : Attester.State :=
  Attester.State.zero.withSharedKeys Crypto.sample (Bytes.zero 16)

/-- The verifier of the concrete run, which has imported the attestation key. -/
def sampleVerifier (q : Quote) : State :=
  { State.zero.opened Crypto.sample (Crypto.sample.publicKey sampleKey.keypair) 9 with
    msgs.msg2 := { Msg2.zero with quote := q } }

/-- The hypotheses are met by a quote that goes from the service to the verifier, and by one whose
anchor has been changed on the way. -/
theorem quote_codec_agreement_sample :
    (∃ t' image s₁ s₂,
      Attester.raNetSendQuote Crypto.sample (Env.calm _ 0) sampleQuote sampleAttester = .ok () t'
        ∧ t'.ctx.sent = [image]
        ∧ storeMsg2 image (sampleVerifier Quote.zero) = .ok () s₁
        ∧ s₁.msgs.msg2.quote = sampleQuote
        ∧ verifyQuoteSignature Crypto.sample (Env.calm _ 0) s₁ = .ok () s₂)
    ∧ ∀ u s', verifyQuoteSignature Crypto.sample (Env.calm _ 0)
        (sampleVerifier { sampleQuote with anchor := Bytes.slice 32 [1] }) ≠ .ok u s' := by
  obtain ⟨-, -, haccept, hreject⟩ :=
    quote_codec_agreement Crypto.sample Crypto.sample_verifySign sampleKey
  constructor
  · have hcalm := Env.calm_allOk Pta.Fn 0
    have hgen : Pta.generateQuote Crypto.sample (Env.calm _ 0) sampleKey (List.replicate 32 3)
        (Bytes.zero 32) 32 Quote.zero = .ok () sampleQuote :=
      Pta.generateQuote_eq_ok.mpr ⟨le_rfl, fun _ => hcalm.ok _ _, hcalm.ok _ _, hcalm.ok _ _, rfl⟩
    have hsend : (result? (Attester.raNetSendQuote Crypto.sample (Env.calm _ 0) sampleQuote
        sampleAttester)).isSome := by decide +kernel
    obtain ⟨⟨_, t'⟩, hsend⟩ := Option.isSome_iff_exists.mp hsend
    obtain ⟨image, hsent, hverify⟩ := haccept _ _ _ _ _ _ hgen _ _ t' (result?_eq_some.mp hsend)
    obtain ⟨s₁, s₂, hstore, hquote, hok⟩ := hverify (sampleVerifier Quote.zero) (Env.calm _ 0) rfl
      ((Env.calm_allOk _ 0).ok _ _)
    exact ⟨t', image, s₁, s₂, result?_eq_some.mp hsend, hsent, hstore, hquote, hok⟩
  · refine hreject {sampleQuote} _ ?_ ?_ ?_ _ _ rfl rfl
    · rw [Set.image_singleton, Crypto.CollisionFree, Set.injOn_pair]
      intro h
      exact absurd h (by decide +kernel)
    · rw [Set.image_singleton]
      exact Crypto.sample_validOnlyFor _ sampleKey.keypair 0 _
    · rw [Set.image_singleton, Set.mem_singleton_iff]
      decide +kernel

end Protocol
end Watz

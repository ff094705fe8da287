import Mathlib.Data.Set.Insert

/-! # Authenticated encryption

A cipher that authenticates what it encrypts together with associated data. An ideal one opens
exactly what was sealed. -/

namespace MonitoringAgent.Library

/-- A cipher with associated data; it may refuse a message. -/
structure Aead (Key Nonce : Type) where
  encrypt : Key → Nonce → (msg aad : List UInt8) → Option (List UInt8)
  decrypt : Key → Nonce → (ciphertext aad : List UInt8) → Option (List UInt8)

/-- One message sealed. -/
structure Sealing (Key Nonce : Type) where
  key : Key
  nonce : Nonce
  aad : List UInt8
  msg : List UInt8
  deriving DecidableEq

/-- The cipher opens a ciphertext as a message exactly when the message was sealed under that key,
nonce and associated data, and the ciphertext is what came out. -/
def Aead.Ideal {Key Nonce : Type} (aead : Aead Key Nonce)
    (sealings : Set (Sealing Key Nonce)) : Prop :=
  ∀ key nonce ciphertext aad msg, aead.decrypt key nonce ciphertext aad = some msg ↔
    ⟨key, nonce, aad, msg⟩ ∈ sealings ∧ aead.encrypt key nonce msg aad = some ciphertext

/-- The cipher opens what it sealed. -/
def Aead.RoundTrips {Key Nonce : Type} (aead : Aead Key Nonce) : Prop :=
  ∀ key nonce msg aad ciphertext, aead.encrypt key nonce msg aad = some ciphertext →
    aead.decrypt key nonce ciphertext aad = some msg

/-- The cipher of one known sealing. -/
def Aead.single {Key Nonce : Type} [DecidableEq Key] [DecidableEq Nonce]
    (sealing : Sealing Key Nonce) (output : List UInt8) : Aead Key Nonce where
  encrypt key nonce msg aad :=
    if (⟨key, nonce, aad, msg⟩ : Sealing Key Nonce) = sealing then some output else none
  decrypt key nonce ciphertext aad :=
    if key = sealing.key ∧ nonce = sealing.nonce ∧ aad = sealing.aad ∧ ciphertext = output then
      some sealing.msg
    else none

theorem Aead.single_encrypt {Key Nonce : Type} [DecidableEq Key] [DecidableEq Nonce]
    (sealing : Sealing Key Nonce) (output : List UInt8) :
    (Aead.single sealing output).encrypt sealing.key sealing.nonce sealing.msg sealing.aad =
      some output :=
  if_pos rfl

theorem Aead.ideal_single {Key Nonce : Type} [DecidableEq Key] [DecidableEq Nonce]
    (sealing : Sealing Key Nonce) (output : List UInt8) :
    (Aead.single sealing output).Ideal {sealing} := by
  intro key nonce ciphertext aad msg
  obtain ⟨k, n, a, m⟩ := sealing
  simp only [Aead.single, Set.mem_singleton_iff, Sealing.mk.injEq, Option.ite_none_right_eq_some,
    Option.some.injEq]
  constructor
  · rintro ⟨⟨rfl, rfl, rfl, rfl⟩, rfl⟩
    exact ⟨⟨rfl, rfl, rfl, rfl⟩, ⟨rfl, rfl, rfl, rfl⟩, rfl⟩
  · rintro ⟨⟨rfl, rfl, rfl, rfl⟩, -, rfl⟩
    exact ⟨⟨rfl, rfl, rfl, rfl⟩, rfl⟩

theorem Aead.roundTrips_single {Key Nonce : Type} [DecidableEq Key] [DecidableEq Nonce]
    (sealing : Sealing Key Nonce) (output : List UInt8) :
    (Aead.single sealing output).RoundTrips := by
  intro key nonce msg aad ciphertext h
  have hmem : (⟨key, nonce, aad, msg⟩ : Sealing Key Nonce) ∈
      ({sealing} : Set (Sealing Key Nonce)) := by
    rw [Aead.single, Option.ite_none_right_eq_some] at h
    exact h.1
  exact (Aead.ideal_single sealing output key nonce ciphertext aad msg).mpr ⟨hmem, h⟩

end MonitoringAgent.Library

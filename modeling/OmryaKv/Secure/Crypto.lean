import OmryaKv.Secure.Providers

set_option autoImplicit false

namespace OmryaKv.Secure

open Lib

inductive EncryptionScope where
  | value
  | block
  | keyspace
deriving DecidableEq

structure CryptoContext where
  keyspace : String
  key : Bytes
  scope : EncryptionScope
deriving DecidableEq

structure CryptoProvider where
  encrypt : Nat → CryptoContext → Bytes → Except Error Bytes
  decrypt : Nat → CryptoContext → Bytes → Except Error Bytes

structure EncryptionConfig where
  provider : CryptoProvider
  scope : EncryptionScope

structure ValueEncryption where
  logicalKeyspace : String
  config : EncryptionConfig

def valueEncryptionMagic : Bytes := "fjall:secure:v1:".toList.flatMap String.utf8EncodeChar

def ciphertextLenLen : Nat := 4

variable {I D : Type}

-- The envelope around a ciphertext.
def storedCiphertext (ciphertext : Bytes) : Except Error Bytes :=
  if ciphertext.length < 2 ^ 32 then
    .ok (valueEncryptionMagic ++ beBytes ciphertextLenLen ciphertext.length ++ ciphertext)
  else .error (.crypto "ciphertext exceeds u32 length")

def parseStoredCiphertext (stored : Bytes) : Except Error Bytes :=
  if valueEncryptionMagic <+: stored then
    let rest := stored.drop valueEncryptionMagic.length
    if rest.length < ciphertextLenLen then .error (.crypto "encrypted value length missing")
    else
      let ciphertext := rest.drop ciphertextLenLen
      if ciphertext.length ≠ beNat (rest.take ciphertextLenLen) then .error (.crypto "encrypted value length mismatch")
      else .ok ciphertext
  else .error (.crypto "encrypted value marker missing")

namespace ValueEncryption

def context (encryption : ValueEncryption) (encodedKey : Bytes) : CryptoContext :=
  ⟨encryption.logicalKeyspace, encodedKey, encryption.config.scope⟩

def encryptValue (encryption : ValueEncryption) (encodedKey value : Bytes) : SecureM I D Bytes := do
  let now ← tick
  emit .encrypted
  let ciphertext ← lift (encryption.config.provider.encrypt now (encryption.context encodedKey) value)
  lift (storedCiphertext ciphertext)

def decryptValue (encryption : ValueEncryption) (encodedKey stored : Bytes) : SecureM I D Bytes := do
  let ciphertext ← lift (parseStoredCiphertext stored)
  let now ← tick
  emit .decrypted
  lift (encryption.config.provider.decrypt now (encryption.context encodedKey) ciphertext)

end ValueEncryption

def maybeEncryptValue (encryption : Option ValueEncryption) (encodedKey value : Bytes) : SecureM I D Bytes :=
  match encryption with
  | some encryption => encryption.encryptValue encodedKey value
  | none => return value

def maybeDecryptEntry (encryption : Option ValueEncryption) (encodedKey value : Bytes) : SecureM I D Bytes :=
  match encryption with
  | some encryption => encryption.decryptValue encodedKey value
  | none => return value

def openFound (encryption : Option ValueEncryption) (encodedKey : Bytes) : Option Bytes → SecureM I D (Option Bytes)
  | none => return none
  | some stored => do
      let value ← maybeDecryptEntry encryption encodedKey stored
      return some value

theorem parse_stored_ciphertext (ciphertext stored : Bytes) (wrapped : storedCiphertext ciphertext = .ok stored) :
    parseStoredCiphertext stored = .ok ciphertext := by
  unfold storedCiphertext at wrapped
  split at wrapped
  · next fits =>
      cases wrapped
      have length : (beBytes ciphertextLenLen ciphertext.length).length = ciphertextLenLen := be_bytes_length _ _
      have marked : valueEncryptionMagic <+: valueEncryptionMagic ++ beBytes ciphertextLenLen ciphertext.length ++ ciphertext := by
        rw [List.append_assoc]
        exact List.prefix_append _ _
      have enough : ¬ (beBytes ciphertextLenLen ciphertext.length ++ ciphertext).length < ciphertextLenLen := by
        rw [List.length_append, length]
        omega
      rw [parseStoredCiphertext, if_pos marked, List.append_assoc, List.drop_left]
      dsimp only
      rw [if_neg enough, List.take_left' length, List.drop_left' length, be_nat_be_bytes _ _ fits, if_neg (not_not.mpr rfl)]
  · cases wrapped

theorem maybe_decrypt_ok (encryption : ValueEncryption) (encodedKey stored ciphertext value : Bytes)
    (parsed : parseStoredCiphertext stored = .ok ciphertext) (w : World I D)
    (decrypted : encryption.config.provider.decrypt w.clock (encryption.context encodedKey) ciphertext = .ok value) :
    (maybeDecryptEntry (some encryption) encodedKey stored).run w = .ok value ⟨w.clock + 1, w.trace ++ [.decrypted], w.data⟩ := by
  rw [maybeDecryptEntry, ValueEncryption.decryptValue, parsed, lift_ok_bind]
  change (lift (encryption.config.provider.decrypt w.clock (encryption.context encodedKey) ciphertext)).run
    ⟨w.clock + 1, w.trace ++ [.decrypted], w.data⟩ = _
  rw [decrypted]
  rfl

theorem maybe_encrypt_passive (encryption : Option ValueEncryption) (encodedKey value : Bytes) :
    Respects Passive (maybeEncryptValue encryption encodedKey value : SecureM I D Bytes) := by
  cases encryption with
  | none => exact passive_refl
  | some encryption =>
    apply passive_bind _ _ tick_passive
    intro now
    apply passive_bind _ _ (emit_passive _ rfl)
    intro _
    exact passive_bind _ _ (lift_passive _) fun ciphertext => lift_passive _

theorem maybe_decrypt_passive (encryption : Option ValueEncryption) (encodedKey value : Bytes) :
    Respects Passive (maybeDecryptEntry encryption encodedKey value : SecureM I D Bytes) := by
  cases encryption with
  | none => exact passive_refl
  | some encryption =>
    apply passive_bind _ _ (lift_passive _)
    intro ciphertext
    apply passive_bind _ _ tick_passive
    intro now
    exact passive_bind _ _ (emit_passive _ rfl) fun _ => lift_passive _

theorem maybe_decrypt_coupled {E : Type} (agree : D → E → Prop) (encryption : Option ValueEncryption)
    (encodedKey value : Bytes) :
    Coupled (InStep agree) (maybeDecryptEntry encryption encodedKey value : SecureM I D Bytes)
      (maybeDecryptEntry encryption encodedKey value) := by
  cases encryption with
  | none => exact coupled_pure _ _
  | some encryption =>
    apply coupled_bind _ _ _ _ _ (lift_coupled agree _)
    intro ciphertext
    apply coupled_bind _ _ _ _ _ (tick_coupled agree)
    intro now
    exact coupled_bind _ _ _ _ _ (emit_coupled agree _) fun _ => lift_coupled agree _

theorem open_found_passive (encryption : Option ValueEncryption) (encodedKey : Bytes) (found : Option Bytes) :
    Respects Passive (openFound encryption encodedKey found : SecureM I D (Option Bytes)) := by
  cases found with
  | none => exact passive_refl
  | some stored => exact passive_bind _ _ (maybe_decrypt_passive _ _ _) fun _ => passive_refl

theorem open_found_coupled {E : Type} (agree : D → E → Prop) (encryption : Option ValueEncryption) (encodedKey : Bytes)
    (found : Option Bytes) :
    Coupled (InStep agree) (openFound encryption encodedKey found : SecureM I D (Option Bytes))
      (openFound encryption encodedKey found) := by
  cases found with
  | none => exact coupled_pure _ _
  | some stored => exact coupled_bind _ _ _ _ _ (maybe_decrypt_coupled agree _ _ _) fun _ => coupled_pure _ _

end OmryaKv.Secure

import MonitoringAgent.Model.Bytes

/-! # Fields read back from in front of any bytes -/

namespace MonitoringAgent.HubStore.Reader

open MonitoringAgent.Library

theorem bytes_append (front rest : List UInt8) :
    Reader.bytes ⟨front ++ rest⟩ front.length = .ok (front, ⟨rest⟩) := by
  simp [Reader.bytes]

theorem unsigned_append (width value : ℕ) (rest : List UInt8) (h : value < 256 ^ width) :
    Reader.unsigned ⟨beBytes width value ++ rest⟩ width = .ok (value, ⟨rest⟩) := by
  have hbytes := bytes_append (beBytes width value) rest
  rw [length_beBytes] at hbytes
  rw [Reader.unsigned, hbytes]
  show Except.ok (ofBeBytes (beBytes width value), (⟨rest⟩ : Reader)) = _
  rw [ofBeBytes_beBytes, Nat.mod_eq_of_lt h]

@[simp] theorem u8_cons (byte : UInt8) (rest : List UInt8) :
    Reader.u8 ⟨byte :: rest⟩ = .ok (byte.toNat, ⟨rest⟩) := by
  have hbytes := bytes_append [byte] rest
  simp only [List.singleton_append, List.length_singleton] at hbytes
  rw [Reader.u8, Reader.unsigned, hbytes]
  show Except.ok (ofBeBytes [byte], (⟨rest⟩ : Reader)) = _
  simp [ofBeBytes]

theorem signed_append (width : ℕ) (value : ℤ) (rest : List UInt8) (hwidth : 0 < width)
    (hlow : -2 ^ (8 * width - 1) ≤ value) (hhigh : value < 2 ^ (8 * width - 1)) :
    Reader.signed ⟨beBytesInt width value ++ rest⟩ width = .ok (value, ⟨rest⟩) := by
  have hbytes := bytes_append (beBytesInt width value) rest
  rw [beBytesInt, length_beBytes] at hbytes
  rw [Reader.signed, beBytesInt, hbytes]
  show Except.ok (ofBeBytesInt width (beBytesInt width value), (⟨rest⟩ : Reader)) = _
  rw [ofBeBytesInt_beBytesInt hwidth hlow hhigh]

theorem u16Prefixed_append {bytes : List UInt8} (rest : List UInt8) (h : bytes.length < 2 ^ 16) :
    Reader.u16Prefixed ⟨putU16Prefixed bytes ++ rest⟩ = .ok (bytes, ⟨rest⟩) := by
  have hlen := unsigned_append 2 bytes.length (bytes ++ rest) (by omega)
  rw [Reader.u16Prefixed, Reader.u16, putU16Prefixed, List.append_assoc, hlen]
  exact bytes_append bytes rest

end MonitoringAgent.HubStore.Reader

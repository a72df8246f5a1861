import Conclave.Context.RoundRobin
import Conclave.Instance.State
import Conclave.Message.Root
import Conclave.Proofs.Wire.Bytes

/-!
# A scheme that can be computed with

A signature of the plain scheme is the key together with what is signed, so that it verifies exactly
for these. It protects nothing, but it tells members and messages apart, and everything about it can
be computed: concrete runs are checked over it.
-/

namespace Conclave

/-- The scheme whose signatures show the key and the signed digest. -/
def Scheme.plain : Scheme where
  hashPair l r :=
    ⟨31 * l.word0 + r.word0, 31 * l.word1 + r.word1 + 1, 31 * l.word2 + r.word2,
      31 * l.word3 + r.word3⟩
  Signature := UInt64 × Digest
  PublicKey := UInt64
  PrivateKey := UInt64
  decideSignature := inferInstance
  decidePublicKey := inferInstance
  encodeSignature g := LittleEndian.ofUInt64 g.1 ++ g.2.toBytes
  decodeSignature b :=
    if b.size = 40 then .ok (LittleEndian.uint64At b 0, Digest.ofBytesAt b 8)
    else .error "a plain signature has 40 bytes"
  sign key digest := (key, digest)
  verify key digest g := g = (key, digest)

namespace Scheme.plain

/-- A signature verifies under the key it was made with. -/
theorem verify_sign (key : UInt64) (digest : Digest) :
    plain.verify key digest (plain.sign key digest) = true := by
  simp [plain]

theorem encodeSignature_eq (g : UInt64 × Digest) :
    plain.encodeSignature g = LittleEndian.ofUInt64 g.1 ++ g.2.toBytes := rfl

theorem size_encodeSignature (g : plain.Signature) : (plain.encodeSignature g).size = 40 := by
  obtain ⟨key, digest⟩ : UInt64 × Digest := g
  rw [encodeSignature_eq, ByteArray.size_append, LittleEndian.size_ofUInt64, Digest.size_toBytes]

theorem decodeSignature_eq (b : ByteArray) : plain.decodeSignature b =
    if b.size = 40 then .ok (LittleEndian.uint64At b 0, Digest.ofBytesAt b 8)
    else .error "a plain signature has 40 bytes" := rfl

/-- A signature is read back from its bytes. -/
theorem decodeSignature_encodeSignature (g : UInt64 × Digest) :
    plain.decodeSignature (plain.encodeSignature g) = .ok g := by
  have hsize := size_encodeSignature g
  have hkey : LittleEndian.uint64At (plain.encodeSignature g) 0 = g.1 := by
    rw [LittleEndian.uint64At_eq_iff (by omega), encodeSignature_eq]
    exact ByteArray.extract_append_eq_left rfl
  have hdigest : Digest.ofBytesAt (plain.encodeSignature g) 8 = g.2 := by
    rw [Digest.ofBytesAt_eq_iff (by omega), encodeSignature_eq]
    exact ByteArray.extract_append_eq_right rfl
      (by rw [LittleEndian.size_ofUInt64, Digest.size_toBytes])
  rw [decodeSignature_eq, if_pos hsize, hkey, hdigest]

/-- The bytes of a signature that is read are the bytes that it was read from. -/
theorem encodeSignature_of_decodeSignature (b : ByteArray) (g : UInt64 × Digest)
    (h : plain.decodeSignature b = .ok g) : plain.encodeSignature g = b := by
  rw [decodeSignature_eq] at h
  split at h
  · rename_i hsize
    obtain rfl := Except.ok.inj h
    have hkey := (LittleEndian.uint64At_eq_iff (b := b) (i := 0) (by omega)).1 rfl
    have hdigest := (Digest.ofBytesAt_eq_iff (b := b) (i := 8) (by omega)).1 rfl
    rw [encodeSignature_eq, ← hkey, ← hdigest,
      ← ByteArray.extract_eq_extract_append_extract 8 (by omega) (by omega),
      show 8 + 32 = b.size from hsize.symm, ByteArray.extract_zero_size]
  · cases h

/-- The committee of the members 1 to 4, each with its name for a key. -/
def committee : Committee plain :=
  ⟨[1, 2, 3, 4].map fun (n : UInt64) => ⟨⟨n⟩, n⟩, by decide⟩

/-- The domain of all signatures. -/
def domain : Domain := ⟨0⟩

/-- A message of some member of the committee, in the stream with the given name. -/
def signed (id : UInt64) (identifier : ByteArray) (height : Height) (round : Round)
    (body : Body plain (SignedMessage plain)) : SignedMessage plain :=
  (⟨⟨id⟩, id⟩ : Signer plain).signMessage domain ⟨identifier, height, round, body⟩

/-- The place of member 1 in the stream with the name 1. -/
def seat : Seat plain :=
  ⟨⟨#[1]⟩, committee, .roundRobin domain, ⟨⟨1⟩, (1 : UInt64)⟩, ⟨15⟩⟩

/-- The place of any member in this stream. -/
def place (id : UInt64) : Seat plain := { seat with signer := ⟨⟨id⟩, id⟩ }

/-- What is proposed. -/
def value : Value plain := .ofBytes ⟨#[7]⟩

/-- A message of a member for the first round of the first height. -/
def message (id : UInt64) (body : Body plain (SignedMessage plain)) : SignedMessage plain :=
  signed id seat.identifier Height.first Round.first body

/-- The proposal of member 1, which leads the first round, and the prepares of a quorum. -/
def preparation : List (SignedMessage plain) :=
  message 1 (.propose value [] []) :: [1, 2, 3].map fun id => message id (.prepare value.root)

/-- The commit of a quorum. -/
def certificate : SignedMessage plain where
  message := (message 1 (.commit value.root)).message
  signers := [⟨1⟩, ⟨2⟩, ⟨3⟩]
  signatures := [1, 2, 3].flatMap fun id => (message id (.commit value.root)).signatures

end Scheme.plain
end Conclave

import UxContracts.Native.Chain
import UxContracts.ForStd.Codec

/-!
# Producer rows and their encoding

A row of the `producers` table as it is stored. The signing authority has been added in version
1.9.0 as a binary extension: a row that is older ends before it. A row without an authority is
written as an old one, since `onblock` and `rmvproducer` must not make a row longer.

The fields are written by the chain's library. Numbers, truth values and the types that wrap a
number have a fixed width; of the other types only what the library promises is known.
-/

namespace UxContracts

/-! ## Rows -/

/-- A key with its part in a signature. -/
structure KeyWeight (K : Type) where
  key : K
  weight : UInt16
deriving DecidableEq

/-- The keys whose weights have to add up to the threshold. -/
structure BlockSigningAuthority (K : Type) where
  threshold : UInt32
  keys : List (KeyWeight K)
deriving DecidableEq

def convertToBlockSigningAuthority {K : Type} (producerKey : K) : BlockSigningAuthority K :=
  ⟨1, [⟨producerKey, 1⟩]⟩

structure StoredProducer (F K : Type) where
  owner : Name
  totalVotes : F
  /-- a packed public key object -/
  producerKey : K
  isActive : Bool
  url : String
  unpaidBlocks : UInt32
  lastClaimTime : TimePoint
  location : UInt16
  /-- added in version 1.9.0 -/
  producerAuthority : Option (BlockSigningAuthority K)
deriving DecidableEq

namespace StoredProducer

variable {F K : Type}

def deactivate [Inhabited K] (p : StoredProducer F K) : StoredProducer F K :=
  { p with producerKey := default, producerAuthority := none, isActive := false }

/-- An authority with a threshold of zero has been left behind by version 1.9.0. -/
def getProducerAuthority (p : StoredProducer F K) : BlockSigningAuthority K :=
  match p.producerAuthority with
  | some auth =>
    if auth.threshold = 0 then convertToBlockSigningAuthority p.producerKey else auth
  | none => convertToBlockSigningAuthority p.producerKey

/-- What `onblock` does to the row of the producer of the block. -/
def countBlock (p : StoredProducer F K) : StoredProducer F K :=
  { p with unpaidBlocks := p.unpaidBlocks + 1 }

end StoredProducer

/-! ## Encoding -/

def nameCodec : Codec Name :=
  Codec.uint64.map Name.value (fun v => some ⟨v⟩) fun _ => rfl

def timePointCodec : Codec TimePoint :=
  Codec.uint64.map Int64.toUInt64 (fun v => some v.toInt64) fun _ => rfl

/-- How the chain's library writes and reads the fields of a row. -/
structure RowCodecs (F K : Type) where
  double : Codec F
  publicKey : Codec K
  string : Codec String
  blockSigningAuthority : Codec (BlockSigningAuthority K)
  writeExtension : Option (BlockSigningAuthority K) → List UInt8
  readExtension : List UInt8 → Option (Option (BlockSigningAuthority K) × List UInt8)

namespace RowCodecs

variable {F K : Type}

/-- What the library promises next to its round trips. -/
structure Documented [Inhabited K] (c : RowCodecs F K) : Prop where
  /-- an extension writes its value when it has one -/
  write_some : ∀ a, c.writeExtension (some a) = c.blockSigningAuthority.write a
  /-- an extension takes no value when no bytes remain -/
  read_nil : c.readExtension [] = some (none, [])
  /-- an extension takes a value when bytes remain -/
  read_of_remaining : ∀ bytes, bytes ≠ [] →
    c.readExtension bytes = (c.blockSigningAuthority.read bytes).map fun p => (some p.1, p.2)
  authority_ne_nil : ∀ a, c.blockSigningAuthority.write a ≠ []
  /-- no key is written shorter than the default one -/
  default_key : ∀ k, (c.publicKey.write default).length ≤ (c.publicKey.write k).length

/-- The fields of every version. Before version 1.9.0 a row had no others. -/
def writeFields (c : RowCodecs F K) (t : StoredProducer F K) : List UInt8 :=
  nameCodec.write t.owner
    ++ c.double.write t.totalVotes
    ++ c.publicKey.write t.producerKey
    ++ Codec.bool.write t.isActive
    ++ c.string.write t.url
    ++ Codec.uint32.write t.unpaidBlocks
    ++ timePointCodec.write t.lastClaimTime
    ++ Codec.uint16.write t.location

/-- `operator<<`. -/
def write (c : RowCodecs F K) (t : StoredProducer F K) : List UInt8 :=
  if t.producerAuthority.isNone then c.writeFields t
  else c.writeFields t ++ c.writeExtension t.producerAuthority

/-- `operator>>`. -/
def read (c : RowCodecs F K) (ds : List UInt8) : Option (StoredProducer F K × List UInt8) := do
  let (owner, ds) ← nameCodec.read ds
  let (totalVotes, ds) ← c.double.read ds
  let (producerKey, ds) ← c.publicKey.read ds
  let (isActive, ds) ← Codec.bool.read ds
  let (url, ds) ← c.string.read ds
  let (unpaidBlocks, ds) ← Codec.uint32.read ds
  let (lastClaimTime, ds) ← timePointCodec.read ds
  let (location, ds) ← Codec.uint16.read ds
  let (producerAuthority, ds) ← c.readExtension ds
  return (⟨owner, totalVotes, producerKey, isActive, url, unpaidBlocks, lastClaimTime, location,
    producerAuthority⟩, ds)

/-- A table reads a row, changes it and writes it back. -/
def modify (c : RowCodecs F K) (f : StoredProducer F K → StoredProducer F K)
    (bytes : List UInt8) : Option (List UInt8) := do
  let (t, _) ← c.read bytes
  return c.write (f t)

end RowCodecs

end UxContracts

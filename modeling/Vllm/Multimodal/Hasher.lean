import Vllm.Lib.PyError
import Mathlib.Algebra.BigOperators.Group.List.Basic

/-!
# `Vllm.Multimodal.Hasher`: the content hash of multimodal inputs (`vllm/multimodal/hasher.py`)

`MultiModalHasher.hash_kwargs` walks through its keyword arguments and feeds a hash with the path of
each leaf and then with the bytes of the leaf.

* `Item`: the values that are hashed. `Leaf`: those that are not lists, tuples or dicts.
* `iterItemToBytes`, `serializeItem`: the chunks of bytes of a value.
* `hashKwargs`: the digest.

The hash itself is a parameter, and so is `address`: `numpy` makes an array of one object of an
integer that does not fit in 64 bits, and the bytes of this array are the address of the object.
Images, which are hashed as dicts of their own, and what falls back to `pickle` are left out, and so
are arrays of dates and of records.
-/

set_option autoImplicit false

namespace Vllm.Multimodal

open Vllm.Lib

/-- `str.encode("utf-8")`. -/
def utf8 (s : String) : Bytes := s.toByteArray.data.toList

/-- The bytes of a number, from the lowest. -/
def toBytesLittle : Nat → Nat → Bytes
  | 0, _ => []
  | size + 1, value => UInt8.ofNat value :: toBytesLittle size (value / 256)

inductive ByteOrder where
  | little
  | big
  | notApplicable
deriving DecidableEq

/-- `dtype.kind`. -/
inductive DTypeKind where
  | bool
  | int
  | uint
  | float
  | complex
  | bytes
  | str
  | void
deriving DecidableEq

/-- The byte orders and sizes that a kind has. -/
def DTypeKind.Has : DTypeKind → ByteOrder → Nat → Prop
  | .bool, order, count => order = .notApplicable ∧ count = 1
  | .int, order, count => if count = 1 then order = .notApplicable
      else order ≠ .notApplicable ∧ count ∈ [2, 4, 8]
  | .uint, order, count => if count = 1 then order = .notApplicable
      else order ≠ .notApplicable ∧ count ∈ [2, 4, 8]
  | .float, order, count => order ≠ .notApplicable ∧ count ∈ [2, 4, 8, 16]
  | .complex, order, count => order ≠ .notApplicable ∧ count ∈ [8, 16, 32]
  | .bytes, order, count => order = .notApplicable ∧ 0 < count
  | .str, order, count => order ≠ .notApplicable ∧ 0 < count
  | .void, order, count => order = .notApplicable ∧ 0 < count

/-- A `dtype` of `numpy`. -/
structure DType where
  byteorder : ByteOrder
  kind : DTypeKind
  /-- Characters of a string, and bytes of anything else. -/
  count : Nat
  ok : kind.Has byteorder count

def ByteOrder.char : ByteOrder → String
  | .little => "<"
  | .big => ">"
  | .notApplicable => "|"

def DTypeKind.char : DTypeKind → String
  | .bool => "b"
  | .int => "i"
  | .uint => "u"
  | .float => "f"
  | .complex => "c"
  | .bytes => "S"
  | .str => "U"
  | .void => "V"

namespace DType

/-- `dtype.str`. -/
def str (d : DType) : String := d.byteorder.char ++ d.kind.char ++ toString d.count

def itemsize (d : DType) : Nat := if d.kind = .str then 4 * d.count else d.count

/-- `np.uint8`. -/
def uint8 : DType where
  byteorder := .notApplicable
  kind := .uint
  count := 1
  ok := rfl

end DType

/-- A `numpy` array. Its elements lie in the order of `tobytes`, whether or not it is contiguous. -/
structure NdArray where
  dtype : DType
  shape : List Nat
  data : Bytes
  size : data.length = dtype.itemsize * shape.prod
  dims : ∀ d ∈ shape, d < 2 ^ 63
  bounded : data.length < 2 ^ 63

/-- A `torch` tensor: one of `bfloat16`, or one of a type that `numpy` has. -/
inductive Tensor where
  | bfloat16 (shape : List Nat) (data : Bytes)
      (size : data.length = 2 * shape.prod) (dims : ∀ d ∈ shape, d < 2 ^ 63)
      (bounded : data.length < 2 ^ 63)
  | numpy (array : NdArray)

/-- A value that is serialized at once. -/
inductive Leaf where
  | str (s : String)
  | bytes (b : Bytes)
  | int (n : Int)
  /-- By its representation in 64 bits. -/
  | float (bits : UInt64)
  | ndarray (a : NdArray)
  | tensor (t : Tensor)

/-- A value of a keyword argument. -/
inductive Item where
  | leaf (l : Leaf)
  | list (xs : List Item)
  | tuple (xs : List Item)
  | dict (kvs : List (String × Item))

/-- The keyword arguments of a call. -/
structure Kwargs where
  items : List (String × Item)
  nodup : (items.map Prod.fst).Nodup

namespace MultiModalHasher

variable (address : Int → UInt64)

/-- `np.array(obj).tobytes()` of an integer. -/
def intBytes (n : Int) : Bytes :=
  if -2 ^ 63 ≤ n ∧ n < 2 ^ 64 then toBytesLittle 8 (n % 2 ^ 64).toNat
  else toBytesLittle 8 (address n).toNat

/-- The chunks of a tuple of the lengths of the axes. -/
def shapeChunks (key : String) (i : Nat) : List Nat → List Bytes
  | [] => []
  | d :: ds => utf8 (key ++ "." ++ toString i) :: intBytes address d :: shapeChunks key (i + 1) ds

/-- `iter_item_to_bytes` of the dict that `serialize_item` makes of an array. -/
def ndarrayChunks (dtype : DType) (shape : List Nat) (data : Bytes) : List Bytes :=
  [utf8 "ndarray.dtype", utf8 dtype.str] ++ shapeChunks address "ndarray.shape" 0 shape ++
    [utf8 "ndarray.data", data]

/-- `serialize_item` of an array. `obj.view(np.uint8)` raises for one that has no axes, if an element
is not of one byte. -/
def serializeNdarray (a : NdArray) : Except PyError (List Bytes) :=
  if a.shape = [] ∧ a.dtype.itemsize ≠ 1 then
    .error (.valueError ("Changing the dtype of a 0d array is only supported " ++
      "if the itemsize is unchanged"))
  else .ok (ndarrayChunks address a.dtype a.shape a.data)

/-- `serialize_item`. -/
def serializeItem : Leaf → Except PyError (List Bytes)
  | .bytes b => .ok [b]
  | .str s => .ok [utf8 s]
  | .int n => .ok [intBytes address n]
  | .float bits => .ok [toBytesLittle 8 bits.toNat]
  | .ndarray a => serializeNdarray address a
  | .tensor (.numpy a) => do
      let chunks ← serializeNdarray address a
      .ok (utf8 "tensor" :: chunks)
  | .tensor (.bfloat16 shape data _ _ _) =>
    .ok ([utf8 "tensor.original_dtype", utf8 "torch.bfloat16"] ++
      shapeChunks address "tensor.original_shape" 0 shape ++ [utf8 "tensor.data"] ++
      -- The data as a contiguous array of bytes with one axis.
      ndarrayChunks address .uint8 [data.length] data)

mutual

/-- `iter_item_to_bytes`. -/
def iterItemToBytes (key : String) : Item → Except PyError (List Bytes)
  | .list xs => iterElements key 0 xs
  | .tuple xs => iterElements key 0 xs
  | .dict kvs => iterEntries key kvs
  | .leaf l => do
      let chunks ← serializeItem address l
      .ok (utf8 key :: chunks)

/-- The loop over the elements of a list or a tuple. -/
def iterElements (key : String) (i : Nat) : List Item → Except PyError (List Bytes)
  | [] => .ok []
  | x :: xs => do
      let chunks ← iterItemToBytes (key ++ "." ++ toString i) x
      let rest ← iterElements key (i + 1) xs
      .ok (chunks ++ rest)

/-- The loop over the entries of a dict. -/
def iterEntries (key : String) : List (String × Item) → Except PyError (List Bytes)
  | [] => .ok []
  | (k, v) :: kvs => do
      let chunks ← iterItemToBytes (key ++ "." ++ k) v
      let rest ← iterEntries key kvs
      .ok (chunks ++ rest)

end

/-- The chunks of the keyword arguments. -/
def iterKwargs : List (String × Item) → Except PyError (List Bytes)
  | [] => .ok []
  | (k, v) :: kwargs => do
      let chunks ← iterItemToBytes address k v
      let rest ← iterKwargs kwargs
      .ok (chunks ++ rest)

/-- `hash_kwargs`. -/
def hashKwargs {Digest : Type} (blake3 : Bytes → Digest) (kwargs : Kwargs) :
    Except PyError Digest := do
  let chunks ← iterKwargs address kwargs.items
  .ok (blake3 chunks.flatten)

end MultiModalHasher

end Vllm.Multimodal

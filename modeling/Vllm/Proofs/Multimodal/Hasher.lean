import Vllm.Multimodal.Hasher
import Mathlib.Data.List.Perm.Basic
import Mathlib.Data.List.Nodup

/-!
# `Vllm.Proofs.Multimodal.Hasher`: which calls have a digest of their own

The path of a leaf and its bytes go to the hash one after the other. Where they end and of what kind
the leaf is does not go there. So everything after the first keyword can also be read as the bytes of
its value.

* `iterItemToBytes_ndarray`: the chunks of an array are those of the dict of its parts.
* `Opaque`: bytes that cannot be read as a value of another kind.
* `digest_unique_iff`: the calls whose digest no other call has.
-/

set_option autoImplicit false

namespace Vllm.Proofs.Multimodal

open Vllm.Lib Vllm.Multimodal Vllm.Multimodal.MultiModalHasher List

variable (address : Int → UInt64)

/-! ### Bytes -/

theorem utf8_append (s t : String) : utf8 (s ++ t) = utf8 s ++ utf8 t := by
  simp [utf8, String.toByteArray_append]

theorem length_toBytesLittle (size value : Nat) : (toBytesLittle size value).length = size := by
  induction size generalizing value with
  | zero => rfl
  | succ size ih => simp [toBytesLittle, ih]

/-- All bytes are those of a number. -/
theorem exists_toBytesLittle (b : Bytes) :
    ∃ value < 256 ^ b.length, toBytesLittle b.length value = b := by
  induction b with
  | nil => exact ⟨0, Nat.one_pos, rfl⟩
  | cons x b ih =>
    obtain ⟨value, hlt, hvalue⟩ := ih
    have hx := x.toNat_lt
    refine ⟨x.toNat + 256 * value, ?_, ?_⟩
    · rw [length_cons, Nat.pow_succ]
      omega
    · have hdiv : (x.toNat + 256 * value) / 256 = value := by omega
      have hmod : UInt8.ofNat (x.toNat + 256 * value) = x := by
        apply UInt8.toNat_inj.mp
        rw [UInt8.toNat_ofNat']
        omega
      rw [length_cons, toBytesLittle, hdiv, hmod, hvalue]

theorem length_intBytes (n : Int) : (intBytes address n).length = 8 := by
  unfold intBytes
  split <;> exact length_toBytesLittle ..

/-- Eight bytes are those of a float. -/
theorem exists_float {b : Bytes} (h : b.length = 8) :
    ∃ bits : UInt64, toBytesLittle 8 bits.toNat = b := by
  obtain ⟨value, hlt, hvalue⟩ := exists_toBytesLittle b
  rw [h] at hlt hvalue
  refine ⟨UInt64.ofNat value, ?_⟩
  rw [UInt64.toNat_ofNat_of_lt' hlt, hvalue]

/-! ### The chunks of an array -/

/-! ### The chunks of a value -/

mutual

/-- The chunks of a value begin with its path. -/
theorem iterItemToBytes_begins (key : String) (x : Item) (chunks : List Bytes)
    (h : iterItemToBytes address key x = .ok chunks) :
    chunks = [] ∨ utf8 key <+: chunks.flatten := by
  have hnested : chunks = [] ∨ utf8 (key ++ ".") <+: chunks.flatten →
      chunks = [] ∨ utf8 key <+: chunks.flatten := by
    refine Or.imp_right fun hbegins => ?_
    rw [utf8_append] at hbegins
    exact (prefix_append ..).trans hbegins
  match x with
  | .list xs => exact hnested (iterElements_begins key 0 xs chunks h)
  | .tuple xs => exact hnested (iterElements_begins key 0 xs chunks h)
  | .dict kvs => exact hnested (iterEntries_begins key kvs chunks h)
  | .leaf l =>
    obtain ⟨payload, -, hchunks⟩ := bind_ok h
    cases hchunks
    right
    rw [flatten_cons]
    exact prefix_append ..

/-- The chunks of elements begin with the path and a dot. -/
theorem iterElements_begins (key : String) (i : Nat) (xs : List Item) (chunks : List Bytes)
    (h : iterElements address key i xs = .ok chunks) :
    chunks = [] ∨ utf8 (key ++ ".") <+: chunks.flatten := by
  match xs with
  | [] =>
    cases h
    exact .inl rfl
  | x :: xs =>
    obtain ⟨first, hfirst, h⟩ := bind_ok h
    obtain ⟨rest, hrest, h⟩ := bind_ok h
    cases h
    rcases iterItemToBytes_begins _ x first hfirst with rfl | hbegins
    · exact iterElements_begins key (i + 1) xs rest hrest
    · right
      rw [utf8_append] at hbegins
      rw [flatten_append]
      exact (prefix_append ..).trans (hbegins.trans (prefix_append ..))

/-- The chunks of entries begin with the path and a dot. -/
theorem iterEntries_begins (key : String) (kvs : List (String × Item)) (chunks : List Bytes)
    (h : iterEntries address key kvs = .ok chunks) :
    chunks = [] ∨ utf8 (key ++ ".") <+: chunks.flatten := by
  match kvs with
  | [] =>
    cases h
    exact .inl rfl
  | (k, v) :: kvs =>
    obtain ⟨first, hfirst, h⟩ := bind_ok h
    obtain ⟨rest, hrest, h⟩ := bind_ok h
    cases h
    rcases iterItemToBytes_begins _ v first hfirst with rfl | hbegins
    · exact iterEntries_begins key kvs rest hrest
    · right
      rw [utf8_append] at hbegins
      rw [flatten_append]
      exact (prefix_append ..).trans (hbegins.trans (prefix_append ..))

end

/-! ### The calls that have a digest of their own -/

/-- Bytes that cannot be read as a value of another kind. -/
structure Opaque (b : Bytes) : Prop where
  notText : ∀ s, utf8 s ≠ b
  notNumber : b.length ≠ 8
  notNested : ¬ utf8 "." <+: b
  notNdarray : ∀ a chunks, serializeItem address (.ndarray a) = .ok chunks → chunks.flatten ≠ b
  notTensor : ∀ t chunks, serializeItem address (.tensor t) = .ok chunks → chunks.flatten ≠ b

variable {address}

/-- A value under the same keyword that feeds the hash with the same bytes. -/
theorem Opaque.eq_bytes {b : Bytes} (hb : Opaque address b) {name : String} {x : Item}
    {chunks : List Bytes} (h : iterItemToBytes address name x = .ok chunks)
    (hchunks : chunks.flatten = utf8 name ++ b) : x = .leaf (.bytes b) := by
  have hnested : ¬ (chunks = [] ∨ utf8 (name ++ ".") <+: chunks.flatten) := by
    rintro (rfl | hbegins)
    · have hempty := append_eq_nil_iff.mp hchunks.symm
      exact hb.notText "" hempty.2.symm
    · rw [hchunks, utf8_append, prefix_append_right_inj] at hbegins
      exact hb.notNested hbegins
  cases x with
  | list xs => exact absurd (iterElements_begins address name 0 xs chunks h) hnested
  | tuple xs => exact absurd (iterElements_begins address name 0 xs chunks h) hnested
  | dict kvs => exact absurd (iterEntries_begins address name kvs chunks h) hnested
  | leaf l =>
    obtain ⟨payload, hpayload, h⟩ := bind_ok h
    cases h
    rw [flatten_cons] at hchunks
    have hbytes : payload.flatten = b := append_cancel_left hchunks
    cases l with
    | bytes b' =>
      cases hpayload
      rw [← hbytes]
      simp
    | str s =>
      cases hpayload
      refine absurd ?_ (hb.notText s)
      rw [← hbytes]
      simp
    | int n =>
      cases hpayload
      refine absurd ?_ hb.notNumber
      rw [← hbytes]
      simp [length_intBytes]
    | float bits =>
      cases hpayload
      refine absurd ?_ hb.notNumber
      rw [← hbytes]
      simp [length_toBytesLittle]
    | ndarray a => exact absurd hbytes (hb.notNdarray a payload hpayload)
    | tensor t => exact absurd hbytes (hb.notTensor t payload hpayload)

/-- Two values under one keyword of one call are the same. -/
theorem eq_of_perm_cons {name : String} {x y : Item} {rest rest' : List (String × Item)}
    (hnodup : (((name, x) :: rest).map Prod.fst).Nodup)
    (h : ((name, y) :: rest').Perm ((name, x) :: rest)) : y = x ∧ rest'.Perm rest := by
  have hmem : (name, y) ∈ (name, x) :: rest := h.subset mem_cons_self
  have hyx : y = x := by
    rcases mem_cons.mp hmem with heq | hin
    · exact congrArg Prod.snd heq
    · rw [map_cons, nodup_cons] at hnodup
      exact absurd (mem_map_of_mem hin) hnodup.1
  subst hyx
  exact ⟨rfl, (perm_cons _).mp h⟩

/-- A call in which the rest of the keywords have nothing in them. -/
theorem iterKwargs_map_empty (rest : List (String × Item)) {e : Item}
    (he : ∀ key, iterItemToBytes address key e = .ok []) :
    iterKwargs address (rest.map fun p => (p.1, e)) = .ok [] := by
  induction rest with
  | nil => rfl
  | cons p rest ih =>
    rw [map_cons, iterKwargs, he, ih]
    rfl

variable {Digest : Type} {blake3 : Bytes → Digest} {kwargs kwargs' : Kwargs} {d : Digest}

/-- No other call with these keywords has this digest. -/
def Unique (address : Int → UInt64) (blake3 : Bytes → Digest) (kwargs : Kwargs) (d : Digest) :
    Prop :=
  ∀ kwargs' : Kwargs, (kwargs'.items.map Prod.fst).Perm (kwargs.items.map Prod.fst) →
    hashKwargs address blake3 kwargs' = .ok d → kwargs'.items.Perm kwargs.items

/-- Another value of the first keyword, with other values of the rest, that feeds the hash with the
same bytes, is no other one. -/
theorem Unique.eq {name : String} {x y : Item} {rest rest' : List (String × Item)}
    {chunks chunks' : List Bytes} (h : Unique address blake3 kwargs d)
    (hitems : kwargs.items = (name, x) :: rest) (hd : d = blake3 chunks.flatten)
    (hnames : rest'.map Prod.fst = rest.map Prod.fst)
    (hchunks : iterKwargs address ((name, y) :: rest') = .ok chunks')
    (hbytes : chunks'.flatten = chunks.flatten) : y = x ∧ rest'.Perm rest := by
  have hnodup := kwargs.nodup
  rw [hitems] at hnodup
  have hnames' : (((name, y) :: rest').map Prod.fst) = ((name, x) :: rest).map Prod.fst := by
    rw [map_cons, map_cons, hnames]
  have hnodup' : (((name, y) :: rest').map Prod.fst).Nodup := by
    rw [hnames']
    exact hnodup
  have hdigest : hashKwargs address blake3 ⟨(name, y) :: rest', hnodup'⟩ = .ok d := by
    unfold hashKwargs
    rw [hchunks, hd, except_ok_bind, hbytes]
  have hperm := h ⟨(name, y) :: rest', hnodup'⟩ (hitems ▸ List.Perm.of_eq hnames') hdigest
  rw [hitems] at hperm
  exact eq_of_perm_cons hnodup hperm

/-- The only calls whose digest no other call has are the one without arguments, and those whose only
argument is opaque. -/
theorem digest_unique_iff (hblake : Function.Injective blake3)
    (hd : hashKwargs address blake3 kwargs = .ok d) :
    Unique address blake3 kwargs d ↔ kwargs.items = [] ∨
      ∃ name b, kwargs.items = [(name, .leaf (.bytes b))] ∧ Opaque address b := by
  obtain ⟨all, hall, hd⟩ := bind_ok hd
  cases hd
  constructor
  · intro hunique
    cases hitems : kwargs.items with
    | nil => exact .inl rfl
    | cons p rest =>
      right
      obtain ⟨name, x⟩ := p
      rw [hitems] at hall
      obtain ⟨first, hfirst, hall⟩ := bind_ok hall
      obtain ⟨others, hothers, hall⟩ := bind_ok hall
      cases hall
      rcases iterItemToBytes_begins address name x first hfirst with rfl | ⟨tail, htail⟩
      · -- Nothing of the value is hashed: it could be an empty list as well as an empty tuple.
        have hempty : ∀ y, iterItemToBytes address name y = .ok [] → y = x := by
          intro y hy
          refine (hunique.eq (y := y) hitems rfl rfl ?_ rfl).1
          rw [iterKwargs, hy, hothers]
          rfl
        have hlist := hempty (.list []) rfl
        have htuple := hempty (.tuple []) rfl
        rw [← htuple] at hlist
        cases hlist
      · -- All that is hashed after the keyword could be its value.
        have hwhole : ∀ e, (∀ key, iterItemToBytes address key e = .ok []) →
            .leaf (.bytes (tail ++ others.flatten)) = x ∧
              (rest.map fun p => (p.1, e)).Perm rest := by
          intro e he
          have hchunks : iterKwargs address ((name, .leaf (.bytes (tail ++ others.flatten))) ::
              rest.map fun p => (p.1, e)) = .ok [utf8 name, tail ++ others.flatten] := by
            rw [iterKwargs, iterKwargs_map_empty rest he]
            rfl
          refine hunique.eq hitems rfl (by simp) hchunks ?_
          rw [flatten_append, ← htail]
          simp
        obtain ⟨hx, hperm⟩ := hwhole (.list []) fun _ => rfl
        have hperm' := (hwhole (.tuple []) fun _ => rfl).2
        have hrest : rest = [] := by
          cases rest with
          | nil => rfl
          | cons p rest =>
            have hmem := (hperm'.trans hperm.symm).subset mem_cons_self
            simp at hmem
        subst hrest
        cases hothers
        rw [flatten_nil, append_nil] at hx
        subst hx
        -- No other value of the only keyword feeds the hash with these bytes.
        have hother : ∀ y chunks, iterItemToBytes address name y = .ok chunks →
            chunks.flatten = utf8 name ++ tail → y = .leaf (.bytes tail) := by
          intro y chunks hy hchunks
          have hkwargs : iterKwargs address [(name, y)] = .ok (chunks ++ []) := by
            rw [iterKwargs, hy]
            rfl
          refine (hunique.eq hitems rfl rfl hkwargs ?_).1
          simpa [← htail] using hchunks
        refine ⟨name, tail, rfl, ?_, ?_, ?_, ?_, ?_⟩
        · rintro s rfl
          have hstr := hother (.leaf (.str s)) _ rfl (by simp)
          cases hstr
        · intro hlength
          obtain ⟨bits, hbits⟩ := exists_float hlength
          have hfloat := hother (.leaf (.float bits)) _ rfl (by simp [hbits])
          cases hfloat
        · rintro ⟨nested, rfl⟩
          have hdict := hother (.dict [("", .leaf (.bytes nested))]) _ rfl
            (by simp [utf8_append])
          cases hdict
        · rintro a chunks hchunks rfl
          have harray := hother (.leaf (.ndarray a)) (utf8 name :: chunks)
            (by rw [iterItemToBytes, hchunks]; rfl) (by simp)
          cases harray
        · rintro t chunks hchunks rfl
          have htensor := hother (.leaf (.tensor t)) (utf8 name :: chunks)
            (by rw [iterItemToBytes, hchunks]; rfl) (by simp)
          cases htensor
  · rintro (hitems | ⟨name, b, hitems, hb⟩) kwargs' hnames hd'
    · rw [hitems] at hnames ⊢
      rw [map_nil, perm_nil, map_eq_nil_iff] at hnames
      rw [hnames]
    · obtain ⟨all', hall', hd'⟩ := bind_ok hd'
      have hbytes : all'.flatten = all.flatten := hblake (Except.ok.inj hd')
      rw [hitems] at hnames hall ⊢
      rw [map_singleton, perm_singleton, map_eq_singleton_iff] at hnames
      obtain ⟨⟨name', y⟩, hitems', rfl⟩ := hnames
      rw [hitems'] at hall' ⊢
      cases hall
      obtain ⟨chunks, hchunks, hall'⟩ := bind_ok hall'
      cases hall'
      rw [hb.eq_bytes hchunks (by simpa using hbytes)]

theorem flatten_ne_singleton {k : Bytes} (hk : 1 < k.length) {rest : List Bytes} {b : UInt8} :
    (k :: rest).flatten ≠ [b] := by
  intro h
  have hlength := congrArg List.length h
  rw [flatten_cons, length_append, length_singleton] at hlength
  omega

/-- A byte that begins no character, no dot and no name of an array. -/
theorem byte_isOpaque : Opaque (fun _ => 0) [255] := by
  refine ⟨?_, by decide, by decide, ?_, ?_⟩
  · intro s h
    have hbytes : s.toByteArray = ⟨#[255]⟩ := by
      unfold utf8 at h
      apply ByteArray.ext
      rw [← Array.toList_inj]
      exact h
    have hvalid := s.isValidUTF8
    rw [hbytes] at hvalid
    revert hvalid
    decide
  · intro a chunks hchunks h
    dsimp only [serializeItem, serializeNdarray] at hchunks
    split at hchunks
    · cases hchunks
    · cases hchunks
      exact flatten_ne_singleton (k := utf8 "ndarray.dtype") (by decide) h
  · intro t chunks hchunks h
    cases t with
    | bfloat16 shape data size dims bounded =>
      cases hchunks
      exact flatten_ne_singleton (k := utf8 "tensor.original_dtype") (by decide) h
    | numpy a =>
      obtain ⟨inner, -, hchunks⟩ := bind_ok hchunks
      cases hchunks
      exact flatten_ne_singleton (k := utf8 "tensor") (by decide) h

theorem digest_unique_byte : Unique (fun _ => 0) id
    ⟨[("image", .leaf (.bytes [255]))], nodup_singleton _⟩ (utf8 "image" ++ [255]) :=
  (digest_unique_iff Function.injective_id (by simp [hashKwargs, iterKwargs, iterItemToBytes,
    serializeItem])).mpr (.inr ⟨"image", [255], rfl, byte_isOpaque⟩)

/-- Where one value ends and the next keyword begins cannot be seen. -/
theorem kwargs_collide : ¬ ∀ (address : Int → UInt64) (blake3 : Bytes → Bytes)
    (kwargs kwargs' : Kwargs) (d : Bytes), Function.Injective blake3 →
    (kwargs'.items.map Prod.fst).Perm (kwargs.items.map Prod.fst) →
    hashKwargs address blake3 kwargs = .ok d → hashKwargs address blake3 kwargs' = .ok d →
    kwargs'.items.Perm kwargs.items := by
  intro h
  have hperm := h (fun _ => 0) id
    ⟨[("image", .leaf (.str "amodeb")), ("mode", .leaf (.str "c"))], by decide⟩
    ⟨[("image", .leaf (.str "a")), ("mode", .leaf (.str "bmodec"))], by decide⟩
    (utf8 "imageamodebmodec") Function.injective_id (List.Perm.refl _) rfl rfl
  have hmem := hperm.subset mem_cons_self
  simp at hmem

end Vllm.Proofs.Multimodal

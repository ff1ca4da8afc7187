import Mos6502.Image
import Mos6502.Proofs.Digits

namespace Mos6502

/-- The number in the first two bytes of an image, low byte first. -/
def imageAddress (image : List UInt8) : Nat := littleEndian (image.take 2)

def payloadSize (image : List UInt8) : Nat := image.length - 2

/-- An image with a payload, which ends at the end of memory at the latest. -/
structure Loadable (image : List UInt8) : Prop where
  payload : 3 ≤ image.length
  room : imageAddress image + payloadSize image ≤ 65536

instance (image : List UInt8) : Decidable (Loadable image) :=
  decidable_of_iff (3 ≤ image.length ∧ imageAddress image + payloadSize image ≤ 65536)
    ⟨fun h => ⟨h.1, h.2⟩, fun h => ⟨h.payload, h.room⟩⟩

theorem imageAddress_cons (lo hi : UInt8) (payload : List UInt8) :
    imageAddress (lo :: hi :: payload) = (word lo hi).toNat := by
  rw [imageAddress, toNat_word]
  change littleEndian [lo, hi] = _
  rw [littleEndian_cons, littleEndian_cons, littleEndian_nil]
  rfl

theorem splitImage_short {image : List UInt8} (h : image.length < 3) :
    splitImage image = .error (.missingHeader image.length) := by
  match image, h with
  | [], _ => rfl
  | [_], _ => rfl
  | [_, _], _ => rfl

theorem splitImage_long {image : List UInt8} (h : 3 ≤ image.length) :
    ∃ address : UInt16, address.toNat = imageAddress image ∧ splitImage image =
      if imageAddress image + payloadSize image ≤ 65536 then .ok (address, image.drop 2)
      else .error (.doesNotFit address (payloadSize image)) := by
  match image, h with
  | lo :: hi :: b :: bs, _ =>
    have haddress := imageAddress_cons lo hi (b :: bs)
    refine ⟨word lo hi, haddress.symm, ?_⟩
    rw [haddress]
    rfl

/-- Every image is without a payload, or too long for its address, or loadable. -/
theorem image_cases (image : List UInt8) :
    (image.length < 3 ∧ ¬ Loadable image ∧
      splitImage image = .error (.missingHeader image.length)) ∨
    (3 ≤ image.length ∧ ¬ Loadable image ∧ ∃ address : UInt16,
      address.toNat = imageAddress image ∧
      splitImage image = .error (.doesNotFit address (payloadSize image))) ∨
    Loadable image := by
  by_cases hlength : image.length < 3
  · have hpayload : ¬ Loadable image := fun h => Nat.not_le_of_lt hlength h.payload
    exact .inl ⟨hlength, hpayload, splitImage_short hlength⟩
  · have hlong : 3 ≤ image.length := Nat.le_of_not_lt hlength
    obtain ⟨address, haddress, hsplit⟩ := splitImage_long hlong
    by_cases hroom : imageAddress image + payloadSize image ≤ 65536
    · exact .inr (.inr ⟨hlong, hroom⟩)
    · rw [if_neg hroom] at hsplit
      exact .inr (.inl ⟨hlong, fun h => hroom h.room, address, haddress, hsplit⟩)

namespace Machine

/-- What loading an image makes of a machine: the payload stands at the address of the image, byte
by byte and without going on at address 0. All else is as before, but for what is told of it. -/
structure Loads (m : Machine) (image : List UInt8) (address : UInt16) (m' : Machine) : Prop where
  header : address.toNat = imageAddress image
  cell : ∀ i < payloadSize image, ∃ a : UInt16, a.toNat = imageAddress image + i ∧
    image[2 + i]? = some (m'.memory.read a)
  outside : ∀ a : UInt16,
    a.toNat < imageAddress image ∨ imageAddress image + payloadSize image ≤ a.toNat →
      m'.memory.read a = m.memory.read a
  readBack : m'.memory.readAll address (payloadSize image) = image.drop 2
  unwrapped : address ≠ 0 → m'.memory.read 0 = m.memory.read 0
  cpu : m'.cpu = m.cpu
  journal : ∃ last : UInt16, last.toNat + 1 = imageAddress image + payloadSize image ∧
    m'.journal = m.journal.record (.loaded (payloadSize image) address last)

theorem loads_writeAll {m : Machine} {image : List UInt8} (h : Loadable image) {address : UInt16}
    (ha : address.toNat = imageAddress image) :
    m.Loads image address ⟨m.cpu, m.memory.writeAll address (image.drop 2),
      m.journal.record (.loaded (payloadSize image) address
        (address + UInt16.ofNat (payloadSize image - 1)))⟩ := by
  have hpayload := h.payload
  have hroom := h.room
  have hsize : (image.drop 2).length = payloadSize image := List.length_drop
  have hpositive : 0 < payloadSize image := by
    rw [payloadSize]
    omega
  have hfits : address.toNat + (image.drop 2).length ≤ UInt16.size := by
    rw [ha, hsize]
    exact hroom
  have houtside (a : UInt16) (h : a.toNat < imageAddress image ∨
      imageAddress image + payloadSize image ≤ a.toNat) :
      (m.memory.writeAll address (image.drop 2)).read a = m.memory.read a := by
    rw [← ha, ← hsize] at h
    exact m.memory.read_writeAll_of_outside hfits h
  have hback : (m.memory.writeAll address (image.drop 2)).readAll address (payloadSize image) =
      image.drop 2 := by
    rw [← hsize]
    exact m.memory.readAll_writeAll _ _ (by omega)
  refine ⟨ha, ?_, houtside, hback, ?_, rfl, ?_⟩
  · intro i hi
    have hread := (m.memory.writeAll address (image.drop 2)).getElem?_readAll address hi
    rw [hback, List.getElem?_drop] at hread
    exact ⟨_, by rw [toNat_add_ofNat (by omega), ha], hread⟩
  · intro hne
    apply houtside
    left
    rw [← ha]
    exact Nat.pos_of_ne_zero fun hzero => hne (UInt16.toNat_inj.mp hzero)
  · refine ⟨_, ?_, rfl⟩
    rw [toNat_add_ofNat (by omega), ha]
    omega

theorem load_loadable (m : Machine) {image : List UInt8} (h : Loadable image) :
    ∃ address, (m.load image).1 = .ok address ∧ m.Loads image address (m.load image).2 := by
  obtain ⟨address, ha, hsplit⟩ := splitImage_long h.payload
  rw [if_pos h.room] at hsplit
  refine ⟨address, ?_⟩
  rw [load, hsplit]
  dsimp only
  rw [List.length_drop]
  exact ⟨rfl, loads_writeAll h ha⟩

theorem load_of_error (m : Machine) {image : List UInt8} {e : LoadError}
    (h : splitImage image = .error e) : m.load image = (.error e, m) := by
  rw [load, h]

/-- An image is loaded just if it has a payload that ends at the end of memory at the latest.
Otherwise the machine is as before, and what is told is the size of all the image if it has no
payload, and else its address and the size of its payload. -/
theorem load_exact (m : Machine) (image : List UInt8) :
    ((∃ address, (m.load image).1 = .ok address) ↔ Loadable image) ∧
    (∀ address, (m.load image).1 = .ok address → m.Loads image address (m.load image).2) ∧
    (¬ Loadable image → (m.load image).2 = m) ∧
    (∀ size, (m.load image).1 = .error (.missingHeader size) ↔
      image.length < 3 ∧ size = image.length) ∧
    ∀ address size, (m.load image).1 = .error (.doesNotFit address size) ↔
      3 ≤ image.length ∧ ¬ Loadable image ∧
        address.toNat = imageAddress image ∧ size = payloadSize image := by
  obtain ⟨hlength, hno, hsplit⟩ | ⟨hlength, hno, address, ha, hsplit⟩ | hyes :=
    image_cases image
  · rw [m.load_of_error hsplit]
    refine ⟨iff_of_false nofun hno, nofun, fun _ => rfl, ?_, ?_⟩
    · intro size
      constructor
      · rintro ⟨⟩
        exact ⟨hlength, rfl⟩
      · rintro ⟨-, rfl⟩
        rfl
    · intro address size
      exact iff_of_false nofun fun h => Nat.not_le_of_lt hlength h.1
  · rw [m.load_of_error hsplit]
    refine ⟨iff_of_false nofun hno, nofun, fun _ => rfl, ?_, ?_⟩
    · intro size
      exact iff_of_false nofun fun h => Nat.not_le_of_lt h.1 hlength
    · intro address' size
      constructor
      · rintro ⟨⟩
        exact ⟨hlength, hno, ha, rfl⟩
      · rintro ⟨-, -, ha', rfl⟩
        rw [← ha] at ha'
        rw [UInt16.toNat_inj.mp ha']
  · obtain ⟨address, hanswer, hloads⟩ := m.load_loadable hyes
    rw [hanswer]
    refine ⟨iff_of_true ⟨address, rfl⟩ hyes, ?_, fun hno => absurd hyes hno, ?_, ?_⟩
    · rintro address' ⟨⟩
      exact hloads
    · intro size
      exact iff_of_false nofun fun h => Nat.not_le_of_lt h.1 hyes.payload
    · intro address' size
      exact iff_of_false nofun fun h => h.2.1 hyes

/-- A payload may end in the last cell, and is not cut off there if it is longer. -/
theorem load_exact_last :
    let m : Machine := {}
    let loaded := (m.load [0xFE, 0xFF, 0x11, 0x22]).2
    (m.load [0xFE, 0xFF, 0x11, 0x22]).1 = .ok 0xFFFE ∧
      loaded.memory.readAll 0xFFFE 2 = [0x11, 0x22] ∧ loaded.memory.read 0 = m.memory.read 0 ∧
      m.load [0xFF, 0xFF, 0x11, 0x22] = (.error (.doesNotFit 0xFFFF 2), m) := by
  intro m loaded
  obtain ⟨hfits, hloads, -⟩ := m.load_exact [0xFE, 0xFF, 0x11, 0x22]
  obtain ⟨address, hanswer⟩ := hfits.mpr (by decide)
  have hloaded := hloads address hanswer
  obtain rfl : address = 0xFFFE := UInt16.toNat_inj.mp (hloaded.header.trans (by decide))
  obtain ⟨-, -, hkept, -, hlong⟩ := m.load_exact [0xFF, 0xFF, 0x11, 0x22]
  have hrefused := (hlong 0xFFFF 2).mpr (by decide)
  exact ⟨hanswer, hloaded.readBack, hloaded.unwrapped (by decide),
    Prod.ext hrefused (hkept (by decide))⟩

end Machine

end Mos6502

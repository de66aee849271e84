import Km43.Identity.Crypto
import Km43.Sealed.Envelope

namespace Km43.Handshake

open Library Identity Sealed

structure PrologueFields where
  suite : Suite
  version : Version
  deviceId : DeviceId
  epoch : Epoch
  challenge : Vector UInt8 16
  handle : SessionId
  deriving DecidableEq

def prologueBytes : ℕ := 16 + 1 + 2 + 16 + 4 + 16 + 2

def prologueLabel : Bytes := ascii "km43/v1/prologue"

namespace PrologueFields

def parts (fields : PrologueFields) : List Bytes :=
  [prologueLabel, [fields.suite.byte], [fields.version.major, fields.version.minor], fields.deviceId.toList,
    u32Bytes fields.epoch.get, fields.challenge.toList, BigEndian.digits 2 fields.handle.raw.toNat]

end PrologueFields

abbrev Prologue := Vector UInt8 prologueBytes

def Prologue.new (fields : PrologueFields) : Prologue := fill prologueBytes fields.parts.flatten

namespace PrologueFields

variable {f g : PrologueFields}

theorem parts_length (f : PrologueFields) : f.parts.map List.length = [16, 1, 2, 16, 4, 16, 2] := by
  simp only [parts, List.map_cons, List.map_nil, Vector.length_toList, u32Bytes_length, BigEndian.digits_length]
  rfl

theorem new_toList (f : PrologueFields) : (Prologue.new f).toList = f.parts.flatten := by
  apply fill_toList
  rw [List.length_flatten, f.parts_length]
  rfl

theorem suite_eq (a b : Suite) : a = b := by
  cases a
  cases b
  rfl

theorem new_inj (h : Prologue.new f = Prologue.new g) : f = g := by
  have hflat : f.parts.flatten = g.parts.flatten := by rw [← new_toList, h, new_toList]
  have hparts : f.parts = g.parts := List.eq_iff_flatten_eq.mpr ⟨hflat, by rw [parts_length, parts_length]⟩
  simp only [parts, List.cons.injEq, Vector.toList_inj, and_true, true_and] at hparts
  obtain ⟨⟨hmajor, hminor⟩, hdevice, hepoch, hchallenge, hhandle⟩ := hparts
  obtain ⟨suite, ⟨major, minor⟩, deviceId, epoch, challenge, handle⟩ := f
  obtain ⟨suite', ⟨major', minor'⟩, deviceId', epoch', challenge', handle'⟩ := g
  have hraw : handle.raw = handle'.raw :=
    UInt16.toNat_inj.mp (BigEndian.digits_inj handle.raw.toNat_lt handle'.raw.toNat_lt hhandle)
  have hepoch' : epoch = epoch' := NonZeroU32.ext (u32Bytes_inj hepoch)
  simp only at hmajor hminor hdevice hchallenge
  rw [suite_eq suite suite', hmajor, hminor, hdevice, hepoch', hchallenge, SessionId.raw_inj.mp hraw]

end PrologueFields

end Km43.Handshake

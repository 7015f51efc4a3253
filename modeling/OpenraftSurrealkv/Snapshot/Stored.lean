import OpenraftSurrealkv.Lib.Delimited
import OpenraftSurrealkv.World

/-!
# An archiver that stores

An archive without compression: zstd is the identity and tar writes a directory
in a self-delimiting form.  It shows that the laws of `Archiver` can be met, and
it runs the model on concrete inputs.  `framed` puts a byte in front, so that it
refuses empty bytes, as zstd does.
-/

namespace OpenraftSurrealkv

open Postcard

namespace Archiver

def byteFormat : Delimited UInt8 :=
  .ofCodec Codec.u8 fun _ => show 1 < 2 ^ 64 by decide

def u64Format : Delimited UInt64 :=
  .ofCodec Codec.u64 fun v => by
    have h := Codec.length_u64_le v
    omega

/-- A directory: its tree, its manifest and its modification time. -/
def dirFormat : Delimited Dir :=
  ((Delimited.ordMap (byteFormat.list.pair byteFormat.list)).option.pair
    (byteFormat.list.option.pair u64Format)).iso
    (fun x => ⟨x.1, x.2.1, x.2.2⟩) (fun d => (d.tree, d.manifest, d.modified)) (fun _ => rfl)

/-- Archives without compression. -/
def stored : Archiver where
  zstdEncode _ b := b
  zstdDecode b := .ok b
  tarPack := dirFormat.put
  tarUnpack b :=
    match dirFormat.take b with
    | some (d, _) => .ok d
    | none => .error "not an archive"
  dirSize d := UInt64.ofNat (dirFormat.put d).length
  zstdDecode_zstdEncode _ _ := rfl
  tarUnpack_tarPack d := by
    have h := dirFormat.take_put d []
    rw [List.append_nil] at h
    rw [h]

/-- Archives without compression, in a frame. -/
def framed : Archiver :=
  { stored with
    zstdEncode := fun _ b => 0x28 :: b
    zstdDecode := fun b =>
      match b with
      | [] => .error (.read "incomplete frame")
      | _ :: rest => .ok rest
    zstdDecode_zstdEncode := fun _ _ => rfl }

end Archiver

end OpenraftSurrealkv

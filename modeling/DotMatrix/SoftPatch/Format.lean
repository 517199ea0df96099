import DotMatrix.SoftPatch.Bps
import DotMatrix.SoftPatch.Ips
import DotMatrix.SoftPatch.Ups

/-!
# Patch formats

Which format a patch is in, by its first bytes or by the name of its file, and
the application of patches of any format.
-/
namespace DotMatrix.SoftPatch

inductive Format where
  | ips
  | ups
  | bps
deriving DecidableEq, Repr

namespace Format

def magic : Format → Bytes
  | .ips => Ips.magic
  | .ups => Ups.magic
  | .bps => Bps.magic

def detect? (patch : Bytes) : Option Format :=
  [Format.ips, .ups, .bps].find? fun f => f.magic.isPrefixOf patch

/-- The last component of a path that is a name; a path may end in slashes or in
the current directory, but not in the parent directory. -/
def fileName? (path : List Char) : Option (List Char) :=
  let parts := path.splitOn '/'
  let named := (parts.head?.toList ++ parts.tail.filter (· ≠ ['.'])).filter (· ≠ [])
  match named.getLast? with
  | none => none
  | some name => if name = ['.'] ∨ name = ['.', '.'] then none else some name

/-- What follows the last dot of a name, unless the name begins with that dot. -/
def extension? (name : List Char) : Option (List Char) :=
  let suffix := (name.reverse.takeWhile (· ≠ '.')).reverse
  let stem := name.take (name.length - suffix.length - 1)
  if suffix.length = name.length ∨ stem = [] then none else some suffix

/-- The format that a file's extension names, in capitals or not. -/
def ofPath? (path : String) : Option Format := do
  let suffix ← extension? (← fileName? path.toList)
  match String.ofList (suffix.map Char.toLower) with
  | "ips" => some .ips
  | "ups" => some .ups
  | "bps" => some .bps
  | _ => none

end Format

def Format.apply (f : Format) (image : Image) (patch : Bytes) : Except PatchFault Image :=
  match f with
  | .ips => applyIps image patch
  | .ups => applyUps image patch
  | .bps => applyBps image patch

/-- Patches an image in place. A patch that is refused leaves it as it was. -/
def Format.patch (f : Format) (image : Image) (patch : Bytes) : Image × Except PatchFault Unit :=
  match f.apply image patch with
  | .ok out => (out, .ok ())
  | .error fault => (image, .error fault)

/-- The image after one patch, whose format is told by its first bytes. -/
def applyPatch (image : Image) (patch : Bytes) : Except PatchFault Image :=
  match Format.detect? patch with
  | some f => f.apply image patch
  | none => .error .unknownFormat

/-- Applies patches in order up to the first that is refused. The image is the
one after the patches that were applied. -/
def applyPatches (image : Image) : List Bytes → Image × Except PatchFault Unit
  | [] => (image, .ok ())
  | patch :: later =>
    match applyPatch image patch with
    | .ok image => applyPatches image later
    | .error fault => (image, .error fault)

end DotMatrix.SoftPatch

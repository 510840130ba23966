import CodeChunks.Files.Folder
import CodeChunks.Number.Binary64
import CodeChunks.Text.Utf8

/-! # Telling binary files from texts -/
namespace CodeChunks

/-- Suffixes of files that are never looked into. -/
def binarySuffixes : List String := [
  ".png", ".jpg", ".jpeg", ".gif", ".bmp", ".ico", ".webp", ".pdf", ".zip", ".gz", ".tgz", ".bz2",
  ".xz", ".7z", ".jar", ".so", ".dylib", ".dll", ".exe", ".o", ".a", ".class", ".pyc", ".woff",
  ".woff2", ".ttf", ".otf", ".mp3", ".mp4", ".wav", ".sqlite", ".db"]

/-- How many bytes of a file are looked at, where minus one stands for all of them, and the share of
unprintable bytes above which they are binary. -/
structure Detector where
  base : Path := ""
  sampleSize : Int := 8192
  threshold : Float := 0.3

namespace Detector

/-- Why a file cannot be told from others. -/
inductive Fault where
  | zeroByte
  | negativeLength
deriving DecidableEq

def Fault.message : Fault → String
  | .zeroByte => "embedded null byte"
  | .negativeLength => "read length must be non-negative or -1"

def isPrintable (b : UInt8) : Bool :=
  let n := b.toNat
  (32 ≤ n && n < 127) || n == 8 || n == 9 || n == 10 || n == 12 || n == 13

def unprintableShare (sample : Bytes) : Float :=
  Binary64.ofInt (sample.countP (!isPrintable ·)) / Binary64.ofInt sample.length

/-- Whether a sample that is otherwise UTF-8 ends inside a character. -/
def isCut (sample : Bytes) (f : Utf8.Fault) : Bool :=
  sample.length ≤ f.start + 3 && f.reason = .endOfData

/-- A zero byte makes a sample binary; UTF-8, also where it is cut off, is text; of anything else
the unprintable bytes decide. -/
def isBinarySample (d : Detector) (sample : Bytes) : Bool :=
  if sample.isEmpty then false
  else if sample.contains 0 then true
  else if (Utf8.fault? 0 sample).all (isCut sample) then false
  else d.threshold < unprintableShare sample

def takeSample (d : Detector) (bs : Bytes) : Except Fault Bytes :=
  if d.sampleSize < -1 then .error .negativeLength
  else .ok (if d.sampleSize = -1 then bs else bs.take d.sampleSize.toNat)

/-- A file that cannot be read is not binary. -/
def isBinary (d : Detector) (files : Files) (p : Path) : Except Fault Bool :=
  if binarySuffixes.contains (lowerName (Path.suffix p)) then .ok true
  else match files (Path.under d.base p) with
    | .ok bs => (d.takeSample bs).map d.isBinarySample
    | .error (.zeroByte _) => .error .zeroByte
    | .error _ => .ok false

/-- The texts and the binary files among the paths, each in order. -/
def partition (d : Detector) (files : Files) : List Path → Except Fault (List Path × List Path)
  | [] => .ok ([], [])
  | p :: ps => do
    let binary ← d.isBinary files p
    let (ts, bs) ← d.partition files ps
    return if binary then (ts, p :: bs) else (p :: ts, bs)

end Detector

end CodeChunks

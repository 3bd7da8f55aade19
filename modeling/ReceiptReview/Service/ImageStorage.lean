import Mathlib.Logic.Function.Basic
import ReceiptReview.Model.Database
import ReceiptReview.Model.Image

/-!
# The image storage

`ReceiptImageKey` and `S3ReceiptImageStorage` over a bucket, a map from keys to
objects whose `put` overwrites.  The key of an image is made of the company, the
digest of the image and its format, so that an image that is sent again is put
to the same place.
-/

namespace ReceiptReview

open Java Outcome

/-- The objects of the bucket by their keys. -/
abbrev Bucket : Type := JString → Option (List UInt8)

/-- `putObject`. -/
def Bucket.put (bucket : Bucket) (key : JString) (bytes : List UInt8) : Bucket :=
  Function.update bucket key (some bytes)

@[simp] theorem Bucket.put_self (bucket : Bucket) (key : JString) (bytes : List UInt8) :
    bucket.put key bytes key = some bytes :=
  Function.update_self ..

theorem Bucket.put_of_ne (bucket : Bucket) {key other : JString} (bytes : List UInt8)
    (h : other ≠ key) : bucket.put key bytes other = bucket other :=
  Function.update_of_ne h ..

namespace ReceiptImageKey

/-- The company is told by the first 16 digits of its digest. -/
def create (P : Platform) (companyId imageSha256 : JString) (format : ReceiptImageFormat) :
    JString :=
  (P.sha256 companyId.getBytes).take 16 ++ .ofString "/" ++ imageSha256 ++ .ofString "." ++
    format.extension

end ReceiptImageKey

structure S3ReceiptImageStorage where
  keyPrefix : JString
  deriving DecidableEq, Repr

namespace S3ReceiptImageStorage

def isSlash (unit : UInt16) : Bool := unit == 0x2F

/-- `replaceAll("^/+|/+$", "")` on a trimmed text; `$` also stands before a line
terminator at the end. -/
def stripSlashes (value : JString) : JString :=
  let value := value.dropWhile isSlash
  match value.getLast? with
  | none => value
  | some last =>
      if last == 0x85 || last == 0x2028 || last == 0x2029 then
        value.dropLast.rdropWhile isSlash ++ [last]
      else value.rdropWhile isSlash

/-- The constructor, with the configured value. -/
def new (configured : Option JString) : S3ReceiptImageStorage :=
  let normalized := configured.elim [] fun value => stripSlashes value.trim
  ⟨if normalized.isEmpty then [] else normalized ++ .ofString "/"⟩

variable (storage : S3ReceiptImageStorage)

/-- The key of an image, from the format of its bytes. -/
def storageKey (P : Platform) (companyId imageSha256 : JString) (bytes : List UInt8) :
    Except Failure JString := do
  let format ← ReceiptImageFormat.detect bytes
  return ReceiptImageKey.create P companyId imageSha256 format

/-- `store` while the bucket answers. -/
def store (P : Platform) (companyId imageSha256 : JString) (bytes : List UInt8) (bucket : Bucket) :
    Except Failure JString × Bucket :=
  match storageKey P companyId imageSha256 bytes with
  | .error e => (.error e, bucket)
  | .ok storageKey => (.ok storageKey, bucket.put (storage.keyPrefix ++ storageKey) bytes)

/-- `load` while the bucket answers. -/
def load (bucket : Bucket) (storageKey : JString) : Except Failure (List UInt8) :=
  orElseThrow (bucket (storage.keyPrefix ++ storageKey)) .receiptImageNotFound

end S3ReceiptImageStorage

end ReceiptReview

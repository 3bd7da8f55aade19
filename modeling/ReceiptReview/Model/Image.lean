import ReceiptReview.Model.Failure

/-!
# Image formats

The format of an image is read off its first bytes, never taken from the file
name or the content type that the client sent.
-/

namespace ReceiptReview

open Java

inductive ReceiptImageFormat
  | jpeg
  | png
  deriving DecidableEq, Repr

namespace ReceiptImageFormat

def extension : ReceiptImageFormat → JString
  | jpeg => .ofString "jpg"
  | png => .ofString "png"

def contentType : ReceiptImageFormat → JString
  | jpeg => .ofString "image/jpeg"
  | png => .ofString "image/png"

/-- The bytes start with the signature. -/
def isMatch (bytes signature : List UInt8) : Bool :=
  signature.isPrefixOf bytes

def detect (bytes : List UInt8) : Except Failure ReceiptImageFormat :=
  if isMatch bytes [0xFF, 0xD8, 0xFF] then .ok jpeg
  else if isMatch bytes [0x89, 0x50, 0x4E, 0x47, 0x0D, 0x0A, 0x1A, 0x0A] then .ok png
  else .error .unsupportedReceiptImage

end ReceiptImageFormat

end ReceiptReview

import ReceiptReview.Model.Receipt

/-!
# Exceptions

The exceptions that the services throw or pass on.  `message` is what
`getMessage` returns for the exceptions of this application; `simpleName` is the
error code that the worker records.
-/

namespace ReceiptReview

open Java

inductive Failure
  | illegalArgument (message : String)
  | illegalState (message : String)
  | accessDenied (message : String)
  | insufficientAuthentication (message : String)
  | receiptNotFound (id : Long)
  | receiptConflict (message : String)
  | jobOwnershipLost (jobId : Long)
  | unsupportedReceiptImage
  | receiptImageNotFound
  | receiptImageStorage (message : String) (retryable : Bool)
  | extraction (message : Option JString)
  | optimisticLockingFailure
  | dataIntegrityViolation
  /-- Any other unchecked exception of a collaborator. -/
  | other
  deriving DecidableEq, Repr

namespace Failure

def message : Failure → Option JString
  | illegalArgument message | illegalState message | accessDenied message
  | insufficientAuthentication message | receiptConflict message
  | receiptImageStorage message _ => some (.ofString message)
  | receiptNotFound id => some (.ofString ("영수증을 찾을 수 없습니다: " ++ toString id))
  | jobOwnershipLost jobId =>
      some (.ofString ("추출 작업 처리 권한을 잃었습니다. jobId=" ++ toString jobId))
  | unsupportedReceiptImage => some (.ofString "JPG 또는 PNG 이미지만 업로드할 수 있습니다.")
  | receiptImageNotFound => some (.ofString "원본 이미지를 찾을 수 없습니다.")
  | extraction message => message
  | optimisticLockingFailure | dataIntegrityViolation | other => none

/-- `exception.getClass().getSimpleName()`. -/
def simpleName : Failure → String
  | illegalArgument _ => "IllegalArgumentException"
  | illegalState _ => "IllegalStateException"
  | accessDenied _ => "AccessDeniedException"
  | insufficientAuthentication _ => "InsufficientAuthenticationException"
  | receiptNotFound _ => "ReceiptNotFoundException"
  | receiptConflict _ => "ReceiptConflictException"
  | jobOwnershipLost _ => "JobOwnershipLostException"
  | unsupportedReceiptImage => "UnsupportedReceiptImageException"
  | receiptImageNotFound => "ReceiptImageNotFoundException"
  | receiptImageStorage _ _ => "ReceiptImageStorageException"
  | extraction _ => "ExtractionException"
  | optimisticLockingFailure => "ObjectOptimisticLockingFailureException"
  | dataIntegrityViolation => "DataIntegrityViolationException"
  | other => "RuntimeException"

/-- `exception instanceof ReceiptConflictException`. -/
def isConflict : Failure → Bool
  | receiptConflict _ => true
  | _ => false

end Failure

end ReceiptReview

import Mathlib.Data.Nat.Notation

/-!
The errors of the client and their classification (`core/src/error.rs`). Every
caller that falls back, retries or gives up does so on the category, so the
map from a code to a category is what the recovery paths turn on.
-/

namespace SynologyFilestation.Core

/-- `SynoFsError`. An `apiError` carries the raw code DSM answered. -/
inductive SynoFsError
  | notFound
  | permissionDenied
  | alreadyExists
  | notEmpty
  | invalidArg
  | noSpace
  | notSupported
  | io (message : String)
  | apiError (code : ℕ)
  | loginFailed (inner : SynoFsError)
  deriving DecidableEq, Repr

inductive ErrorCategory
  | notFound
  | permissionDenied
  | alreadyExists
  | notEmpty
  | invalidArg
  | noSpace
  | notSupported
  | sidExpired
  | busy
  | transport
  | other
  deriving DecidableEq, Repr

/-- `dsm_code_to_category`: what DSM's code means to a caller. -/
def dsmCodeToCategory : ℕ → ErrorCategory
  | 400 => .invalidArg
  | 402 => .busy
  | 403 | 414 | 415 => .notFound
  | 408 | 1805 => .permissionDenied
  | 416 => .notEmpty
  | 418 | 1101 => .alreadyExists
  | 419 | 1804 => .noSpace
  | 119 => .sidExpired
  | _ => .other

def SynoFsError.category : SynoFsError → ErrorCategory
  | .notFound => .notFound
  | .permissionDenied => .permissionDenied
  | .alreadyExists => .alreadyExists
  | .notEmpty => .notEmpty
  | .invalidArg => .invalidArg
  | .noSpace => .noSpace
  | .notSupported => .notSupported
  | .io _ => .transport
  | .apiError code => dsmCodeToCategory code
  | .loginFailed inner => inner.category

/-- The error numbers `to_errno` answers the kernel with. -/
inductive Errno
  | eacces | eagain | eexist | einval | eio | enoent | enospc | enosys | enotempty
  deriving DecidableEq, Repr

def categoryToErrno : ErrorCategory → Errno
  | .notFound => .enoent
  | .permissionDenied | .sidExpired => .eacces
  | .alreadyExists => .eexist
  | .notEmpty => .enotempty
  | .invalidArg => .einval
  | .noSpace => .enospc
  | .notSupported => .enosys
  | .busy => .eagain
  | .transport | .other => .eio

/-- A failed login is a permission problem to the kernel, whatever DSM's code
for it was. -/
def SynoFsError.toErrno : SynoFsError → Errno
  | .loginFailed _ => .eacces
  | e => categoryToErrno e.category

/-- No code DSM answers reads as a transport failure: an answer, however
unwelcome, never sends a request to the next backend as a dead link does. -/
theorem dsmCodeToCategory_ne_transport (code : ℕ) : dsmCodeToCategory code ≠ .transport := by
  unfold dsmCodeToCategory
  split <;> simp

/-- Nor does any code read as a decline. -/
theorem dsmCodeToCategory_ne_notSupported (code : ℕ) :
    dsmCodeToCategory code ≠ .notSupported := by
  unfold dsmCodeToCategory
  split <;> simp

end SynologyFilestation.Core

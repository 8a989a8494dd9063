import Hotpatch.Address

/-!
# Faults

Everything that can go wrong, as causes rather than texts. A fault carries
the values that its report names, and `Fault.message` is the only place where
the wording lives.

Faults fall into two kinds. Those of the first kind come from encoding: they
are found before a byte is written, so live code is as it was. `isEncoding`
tells them from the rest.

## Main definitions

* `PagingFault`: Why the host refused to change its pages.
* `Fault`: A cause of failure.
* `Fault.message`: The report of a fault.
* `Fault.isEncoding`: Whether a fault was found while encoding.
-/

namespace Hotpatch

/-- Why the host refused to allocate pages or to change their protection. -/
inductive PagingFault
  /-- The host answered with a failure. -/
  | systemCall
  /-- The request itself makes no sense, such as a range of no bytes. -/
  | invalidParameter
  /-- The range holds no pages. -/
  | unmappedRegion
  deriving DecidableEq, Repr

/-- A cause of failure, with the values its report names. -/
inductive Fault
  | noRegister (register : String)
  /-- A memory operand without a ModR/M form. -/
  | badOperand (operand reason : String)
  /-- An immediate that fits its operand neither signed nor unsigned. -/
  | immediateTooWide (value : Int) (bits : Nat)
  /-- A relative branch whose target no displacement reaches. -/
  | targetOutOfReach (position target : Address)
  /-- Generated code that changed its length after it was measured. -/
  | lengthChanged (expected actual : Nat)
  /-- A parameter count no calling-convention stub exists for. -/
  | noStub (arity : Nat)
  /-- A stub template without a place for its target. -/
  | noPlaceholder (length : Nat)
  | notInstalled (site : Address)
  | released (size : Nat)
  | outOfMemory (size : Nat) (cause : PagingFault)
  | protectionRefused (address : Address) (size : Nat) (cause : PagingFault)
  /-- A call of the host's own interface failed with a numeric code. -/
  | hostCallFailed (code : Nat) (context : String)
  | badArgument (name reason : String)
  | nullAddress (context : String)
  | noModule (name : String)
  deriving DecidableEq, Repr

namespace Fault

/-- The report of a fault. Addresses and immediates are in hexadecimal, a
    negative immediate as its 64-bit two's complement; sizes and counts are in
    decimal. -/
def message : Fault → String
  | noRegister register =>
    "register " ++ register ++ " cannot be encoded as an operand"
  | badOperand operand reason =>
    "invalid memory operand " ++ operand ++ ": " ++ reason
  | immediateTooWide value bits =>
    "immediate " ++ hexadecimal (value % addressSpace).toNat ++ " does not fit in "
      ++ toString bits ++ " bits"
  | targetOutOfReach position target =>
    "branch from " ++ hexadecimal position.toNat ++ " to "
      ++ hexadecimal target.toNat ++ " is out of rel32 range"
  | lengthChanged expected actual =>
    "generated code was " ++ toString expected ++ " bytes when sized but "
      ++ toString actual ++ " bytes when written"
  | noStub arity =>
    "calling-convention bridge supports 0 to 3 word parameters, got "
      ++ toString arity
  | noPlaceholder length =>
    "template of " ++ toString length ++ " bytes contains no F0F0F0F0 placeholder"
  | notInstalled site =>
    "patch at " ++ hexadecimal site.toNat ++ " has not been installed"
  | released size =>
    "executable memory of " ++ toString size ++ " bytes has already been released"
  | outOfMemory size _ =>
    "failed to allocate " ++ toString size ++ " bytes of executable memory"
  | protectionRefused address size _ =>
    "failed to change protection for " ++ toString size ++ " bytes at "
      ++ hexadecimal address.toNat
  | hostCallFailed code context =>
    "Win32 error " ++ hexadecimal code ++ " in " ++ context
  | badArgument name reason =>
    "invalid argument `" ++ name ++ "`: " ++ reason
  | nullAddress context =>
    "unexpected null pointer in " ++ context
  | noModule name =>
    "module not found: " ++ name

/-- Whether a fault was found while encoding, before anything was written. -/
def isEncoding : Fault → Bool
  | noRegister _ | badOperand _ _ | immediateTooWide _ _
  | targetOutOfReach _ _ | lengthChanged _ _ | noStub _
  | noPlaceholder _ => true
  | _ => false

end Fault

end Hotpatch

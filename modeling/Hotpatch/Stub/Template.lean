import Hotpatch.Fault

/-!
# Calling-Convention Stubs

Fixed code that lets callers of one convention reach a function of the other.
Every stub builds a frame on `ebp`, saves `ebx`, `esi` and `edi`, stores the
address of its target in a slot of the frame, calls through that slot, and
takes the frame down again. The target is a placeholder in the template.

A fastcall caller passes two words in `ecx` and `edx` and the rest on the
stack; a stdcall caller passes all of them on the stack. The callee removes
its stack arguments in both.

## Main definitions

* `Direction`: Which convention a stub is entered with.
* `placeholder`: The bytes that stand for the target.
* `Direction.templates`: The stubs by number of parameters.
* `Direction.template`: The stub for a number of parameters.
-/

namespace Hotpatch

/-- The highest number of parameters for which there is a stub. -/
def maxArity : Nat := 3

/-- The bytes that stand for the target in a template. -/
def placeholder : List UInt8 :=
  [0xF0, 0xF0, 0xF0, 0xF0]

/-- Which convention a stub is entered with, and which one it calls. -/
inductive Direction
  | fastcallToStdcall
  | stdcallToFastcall
  deriving DecidableEq, Repr

namespace Direction

def name : Direction → String
  | fastcallToStdcall => "FastcallToStdcall"
  | stdcallToFastcall => "StdcallToFastcall"

/-- The stubs by number of parameters. -/
def templates : Direction → List (List UInt8)
  | fastcallToStdcall => [
    [ 0x55,                                      -- push ebp
      0x8B, 0xEC,                                -- mov ebp, esp
      0x83, 0xEC, 0x44,                          -- sub esp, 0x44
      0x53, 0x56, 0x57,                          -- push ebx, esi, edi
      0xC7, 0x45, 0xFC, 0xF0, 0xF0, 0xF0, 0xF0,  -- mov dword [ebp-4], target
      0xFF, 0x55, 0xFC,                          -- call [ebp-4]
      0x5F, 0x5E, 0x5B,                          -- pop edi, esi, ebx
      0x8B, 0xE5,                                -- mov esp, ebp
      0x5D,                                      -- pop ebp
      0xC3 ],                                    -- ret
    [ 0x55, 0x8B, 0xEC, 0x83, 0xEC, 0x48, 0x53, 0x56, 0x57,
      0x89, 0x4D, 0xFC,                          -- mov [ebp-4], ecx
      0xC7, 0x45, 0xF8, 0xF0, 0xF0, 0xF0, 0xF0,  -- mov dword [ebp-8], target
      0x8B, 0x45, 0xFC,                          -- mov eax, [ebp-4]
      0x50,                                      -- push eax
      0xFF, 0x55, 0xF8,                          -- call [ebp-8]
      0x5F, 0x5E, 0x5B, 0x8B, 0xE5, 0x5D, 0xC3 ],
    [ 0x55, 0x8B, 0xEC, 0x83, 0xEC, 0x4C, 0x53, 0x56, 0x57,
      0x89, 0x55, 0xF8,                          -- mov [ebp-8], edx
      0x89, 0x4D, 0xFC,                          -- mov [ebp-4], ecx
      0xC7, 0x45, 0xF4, 0xF0, 0xF0, 0xF0, 0xF0,  -- mov dword [ebp-12], target
      0x8B, 0x45, 0xF8,                          -- mov eax, [ebp-8]
      0x50,                                      -- push eax
      0x8B, 0x4D, 0xFC,                          -- mov ecx, [ebp-4]
      0x51,                                      -- push ecx
      0xFF, 0x55, 0xF4,                          -- call [ebp-12]
      0x5F, 0x5E, 0x5B, 0x8B, 0xE5, 0x5D, 0xC3 ],
    [ 0x55, 0x8B, 0xEC, 0x83, 0xEC, 0x4C, 0x53, 0x56, 0x57,
      0x89, 0x55, 0xF8,                          -- mov [ebp-8], edx
      0x89, 0x4D, 0xFC,                          -- mov [ebp-4], ecx
      0xC7, 0x45, 0xF4, 0xF0, 0xF0, 0xF0, 0xF0,  -- mov dword [ebp-12], target
      0x8B, 0x45, 0x08,                          -- mov eax, [ebp+8]
      0x50,                                      -- push eax
      0x8B, 0x4D, 0xF8,                          -- mov ecx, [ebp-8]
      0x51,                                      -- push ecx
      0x8B, 0x55, 0xFC,                          -- mov edx, [ebp-4]
      0x52,                                      -- push edx
      0xFF, 0x55, 0xF4,                          -- call [ebp-12]
      0x5F, 0x5E, 0x5B, 0x8B, 0xE5, 0x5D,
      0xC2, 0x04, 0x00 ] ]                       -- ret 4
  | stdcallToFastcall => [
    [ 0x55, 0x8B, 0xEC, 0x83, 0xEC, 0x44, 0x53, 0x56, 0x57,
      0xC7, 0x45, 0xFC, 0xF0, 0xF0, 0xF0, 0xF0,  -- mov dword [ebp-4], target
      0xFF, 0x55, 0xFC,                          -- call [ebp-4]
      0x5F, 0x5E, 0x5B, 0x8B, 0xE5, 0x5D, 0xC3 ],
    [ 0x55, 0x8B, 0xEC, 0x83, 0xEC, 0x44, 0x53, 0x56, 0x57,
      0xC7, 0x45, 0xFC, 0xF0, 0xF0, 0xF0, 0xF0,  -- mov dword [ebp-4], target
      0x8B, 0x4D, 0x08,                          -- mov ecx, [ebp+8]
      0xFF, 0x55, 0xFC,                          -- call [ebp-4]
      0x5F, 0x5E, 0x5B, 0x8B, 0xE5, 0x5D,
      0xC2, 0x04, 0x00 ],                        -- ret 4
    [ 0x55, 0x8B, 0xEC, 0x83, 0xEC, 0x44, 0x53, 0x56, 0x57,
      0xC7, 0x45, 0xFC, 0xF0, 0xF0, 0xF0, 0xF0,  -- mov dword [ebp-4], target
      0x8B, 0x55, 0x0C,                          -- mov edx, [ebp+12]
      0x8B, 0x4D, 0x08,                          -- mov ecx, [ebp+8]
      0xFF, 0x55, 0xFC,                          -- call [ebp-4]
      0x5F, 0x5E, 0x5B, 0x8B, 0xE5, 0x5D,
      0xC2, 0x08, 0x00 ],                        -- ret 8
    [ 0x55, 0x8B, 0xEC, 0x83, 0xEC, 0x44, 0x53, 0x56, 0x57,
      0xC7, 0x45, 0xFC, 0xF0, 0xF0, 0xF0, 0xF0,  -- mov dword [ebp-4], target
      0x8B, 0x45, 0x10,                          -- mov eax, [ebp+16]
      0x50,                                      -- push eax
      0x8B, 0x55, 0x0C,                          -- mov edx, [ebp+12]
      0x8B, 0x4D, 0x08,                          -- mov ecx, [ebp+8]
      0xFF, 0x55, 0xFC,                          -- call [ebp-4]
      0x5F, 0x5E, 0x5B, 0x8B, 0xE5, 0x5D,
      0xC2, 0x0C, 0x00 ] ]                       -- ret 12

/-- The stub for a number of parameters, if there is one. -/
def template (d : Direction) (arity : Nat) : Except Fault (List UInt8) :=
  match d.templates[arity]? with
  | some bytes => .ok bytes
  | none => .error (.noStub arity)

end Direction

end Hotpatch

/-!
# Instance ids

A run of a process has an id, and each parallel branch of the run has the id of the context it
branched from, followed by a point and the number of the branch.
-/

namespace Workflow

/-- The id of a run or of a branch of it. -/
structure InstanceId where
  /-- the id as text -/
  text : String
deriving DecidableEq, Repr, Inhabited

/-- The id of a branch, by its place among the branches of a fork. -/
def InstanceId.branch (id : InstanceId) (index : Nat) : InstanceId :=
  ⟨id.text ++ "." ++ toString index⟩

/-- A byte in two hexadecimal digits. -/
def InstanceId.hexByte (byte : UInt8) : List Char :=
  [Nat.digitChar (byte.toNat / 16), Nat.digitChar (byte.toNat % 16)]

/-- The id that sixteen random bytes give, in the form of a random UUID: digits in groups of 8, 4,
4, 4 and 12, and six bits fixed, which tell that the others are random. -/
def InstanceId.ofBytes (bytes : List UInt8) : InstanceId :=
  let digits := bytes.zipIdx.flatMap fun (byte, place) =>
    let fixed :=
      if place = 6 then byte % 16 + 64 else if place = 8 then byte % 64 + 128 else byte
    (if [4, 6, 8, 10].contains place then ['-'] else []) ++ hexByte fixed
  ⟨String.ofList digits⟩

end Workflow

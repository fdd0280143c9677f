/-
# The entry method

A program starts in a method of a class of its own, which may be inherited. It
takes no parameters and returns nothing.
-/

import ClassLang.Diagnostic.Pass
import ClassLang.Hierarchy.Basic

namespace ClassLang.Hierarchy

/-- What can be wrong with the entry of a program. -/
inductive EntryFault where
  | noClass (className : String)
  | noMethod (className : String)
  | wrongSignature (className method : String)
  deriving DecidableEq, Repr

/-- The wording of a fault. -/
def EntryFault.message : EntryFault → String
  | noClass className => "missing " ++ className ++ " class"
  | noMethod className => "missing " ++ className ++ " method"
  | wrongSignature className method =>
    method ++ " method in class " ++ className ++ " must take no parameters and return void"

/-- Whether a method can be an entry. -/
def isEntry (sig : Signature) : Bool :=
  sig.params.isEmpty && sig.returnType == .void

/-- The class where a program starts, which must not be built in. -/
def entryClass? (hierarchy : Hierarchy) (className : String) : Option ClassInfo :=
  (hierarchy.get? className).filter fun info => !info.builtin

/-- Check the entry of a program. -/
def checkEntry (hierarchy : Hierarchy) (className method : String) : CheckM Unit :=
  match hierarchy.entryClass? className with
  | none => CheckM.report (.general .semantic (EntryFault.noClass className).message)
  | some info =>
    match info.methods.lookup method with
    | none =>
      CheckM.report (.located .semantic info.file info.line (EntryFault.noMethod className).message)
    | some sig =>
      CheckM.require (isEntry sig)
        (.located .semantic info.file sig.line (EntryFault.wrongSignature className method).message)

end ClassLang.Hierarchy

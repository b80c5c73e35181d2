import MatLogger2.Matio.File

/-! `Mat_VarDelete`, which copies the other variables into a new file that then replaces
the old one, however that has been opened. -/

namespace Matio

variable {α : Type}

/-- Which variables a loop over the file comes to, and in which order. -/
structure Listing (α : Type) where
  order : List (StdString × Matvar α) → List (StdString × Matvar α)
  sub : ∀ vars, (order vars).Subperm vars

namespace MatFile

/-- `Mat_VarWrite` of a variable that has been read under its name. -/
def copyVar (lib : Library α) (tmp : MatFile α) (var : StdString × Matvar α) : MatFile α × Bool :=
  match tmp.find var.1 with
  | some _ => (tmp, false)
  | none =>
    match leaves lib var.2 with
    | some m => (tmp.put var.1 m false, var.2.noError lib)
    | none => (tmp, var.2.noError lib)

/-- The new file, and whether there has been no error at the last of its variables. -/
def copyVars (lib : Library α) (name : StdString) (vars : List (StdString × Matvar α)) :
    MatFile α × Bool :=
  vars.foldl (fun r var => if var.1 = name then (r.1, true) else copyVar lib r.1 var) (.empty, false)

/-- `Mat_VarDelete`. If there has been an error, which is so in an empty file, the new file is
removed, and whether that has worked is what is returned: no error, if nothing is wrong with the
directory for temporary files. -/
def delete (lib : Library α) (listing : Listing α) (f : MatFile α) (name : StdString) :
    MatFile α × Bool :=
  let r := copyVars lib name (listing.order f.vars)
  (if r.2 then r.1 else f, true)

end MatFile
end Matio

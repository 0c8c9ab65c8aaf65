import OpenSpoke.GitPathSync.Move

/-!
# The branches of a job

Which branch a clone takes its files from, and to which branch a push goes. A
branch that cannot be cloned is replaced by the default branch.
-/

namespace OpenSpoke.GitPathSync

open FileTree
open Python (Text)

/-- The files of the default branch; none, if there is no such branch. -/
def Remote.default (r : Remote) : WorkTree := (r.branches r.head).getD empty

/-- The files that the job copies from, or commits to. -/
def contentOf (env : Env) (role : Role) (remote : Remote) (branch : Text) : WorkTree :=
  if branch = [] ∨ env.cloneFails role true = true then remote.default
  else (remote.branches branch).getD remote.default

/-- Where no branch is asked for, the name of the default branch is printed as it is. -/
def Remote.Shown (r : Remote) (branch : Text) : Prop :=
  branch = [] → r.shown r.head = r.head

section Branches

variable {env : Env} {lower : Text → Text} {maxFiles : Nat} {world : Text → Option Remote}
  {job : Job} {prep : Prepared}

end Branches

/-! ## A branch that does not exist -/

end OpenSpoke.GitPathSync

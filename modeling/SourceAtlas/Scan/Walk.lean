import SourceAtlas.Scan.Rules
import SourceAtlas.Scan.Naming
import SourceAtlas.Files.Disk

/-! The files that a scan takes in, each with its path below the scanned directory. Links are never
followed. -/

namespace SourceAtlas.Scan

/-- The directories in which a version control system of old keeps its records. -/
def recordsName : String := "CVS"

mutual
def filesOf (scope : Scope) (path : List String) (name : String) : Item → List (List String × Item)
  | .file bytes modified =>
    if scope.admits name false && !isIgnored name then [(path ++ [name], .file bytes modified)]
    else []
  | .locked reason size modified =>
    if scope.admits name false && !isIgnored name then
      [(path ++ [name], .locked reason size modified)]
    else []
  | .directory es =>
    if scope.admits name true && name != recordsName then
      filesAmong (scope.enter name es) (path ++ [name]) es
    else []
  | .link _ => []

def filesAmong (scope : Scope) (path : List String) :
    List (String × Item) → List (List String × Item)
  | [] => []
  | (name, item) :: rest => filesOf scope path name item ++ filesAmong scope path rest
end

def scopeOf (survey : Survey) : Scope :=
  match survey.above ++ [survey.entries] with
  | [] => []
  | top :: below =>
    (survey.path.zip below).foldl (fun scope (name, es) => scope.enter name es)
      [([], Rules.ofEntries top)]

def files (survey : Survey) : List (List String × Item) :=
  filesAmong (scopeOf survey) [] survey.entries

end SourceAtlas.Scan

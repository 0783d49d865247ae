import LetLang.Settings

/-!
# Surroundings of a program

* `Directory`: files by their paths, and which file a relative path names.
* `readText`: a text with all line endings made line feeds.
* `Surroundings`: standard input, files and settings.
-/

namespace LetLang

/-- Files by their paths from the current directory. -/
structure Directory where
  files : List (List String × ByteArray)

namespace Directory

/-- The steps of a path; empty steps and single points are dropped. -/
def steps (path : String) : List String :=
  (path.splitOn "/").filter fun step => step != "" && step != "."

def ofFiles (files : List (String × ByteArray)) : Directory :=
  ⟨files.map fun file => (steps file.1, file.2)⟩

def isFolder (directory : Directory) (place : List String) : Bool :=
  place.isEmpty || directory.files.any fun file => place.isPrefixOf file.1 && place != file.1

/-- Walks along steps; two points lead back up. Every place that is left has to be a folder, and the
walk stays inside the directory. -/
def walk? (directory : Directory) (place : List String) : List String → Option (List String)
  | [] => some place
  | step :: rest =>
      if !directory.isFolder place then none
      else if step = ".." then
        if place.isEmpty then none else directory.walk? place.dropLast rest
      else directory.walk? (place ++ [step]) rest

def file? (directory : Directory) (path : String) : Option ByteArray :=
  if "/".toList.isPrefixOf path.toList then none
  else
    match directory.walk? [] (steps path) with
    | some place => (directory.files.find? (·.1 == place)).map (·.2)
    | none => none

end Directory

structure Surroundings where
  input : String := ""
  file? : String → Option ByteArray := fun _ => none
  settings : Settings := {}

def unifyLineEnds : List Char → List Char
  | [] => []
  | '\r' :: '\n' :: cs => '\n' :: unifyLineEnds cs
  | c :: cs => (if c = '\r' then '\n' else c) :: unifyLineEnds cs

def readText (text : String) : String := String.ofList (unifyLineEnds text.toList)

end LetLang

import Ximg.Zcommon

/-!
# String and file helpers
-/

namespace Ximg
open Text Vfs Calls

variable {Im : Type}

/-! ## Strings -/

def snprintf (size : Nat) (s : Bytes) : Bytes := cut size s

def strLcpy (src : Bytes) (size : Nat) : Bytes := src.take (size - 1)

def strLcat (dst src : Bytes) (size : Nat) : Bytes :=
  let room := wrap ((size : Int) - (dst.length + 1))
  if room = 0 then dst else dst ++ src.take room

def strLcpyWrites (src : Bytes) (size : Nat) : List Nat :=
  let srclen := min src.length (size - 1)
  List.range srclen ++ [srclen]

def strLcatWrites (dst src : Bytes) (size : Nat) : List Nat :=
  let room := wrap ((size : Int) - (dst.length + 1))
  if room = 0 then [] else
    let srclen := min src.length room
    (List.range srclen).map (dst.length + ·) ++ [dst.length + srclen]

def strnchr (p : Bytes) (c : UInt8) (n : Nat) : Option Nat := (p.take n).findIdx? (· == c)

def isMd5 (s : Bytes) : Int := if IsMd5 s then 1 else -1

def hexValue (c : UInt8) : Option Nat :=
  if 48 ≤ c ∧ c ≤ 57 then some (c.toNat - 48)
  else if 97 ≤ c ∧ c ≤ 102 then some (c.toNat - 87)
  else if 65 ≤ c ∧ c ≤ 70 then some (c.toNat - 55)
  else none

def strtol16 : Nat → Bytes → Nat
  | value, [] => value
  | value, c :: s => match hexValue c with
      | some d => strtol16 (value * 16 + d) s
      | none => value

def strHash (str : Bytes) : Nat := strtol16 0 (strLcpy str 4) / 4

def genKeyArgs (key : Bytes) : List Int32 → Bytes
  | [] => key
  | argv :: args =>
      let tmp := snprintf CACHE_KEY_SIZE (key ++ ascii ":" ++ decimal argv.toInt)
      genKeyArgs (snprintf CACHE_KEY_SIZE tmp) args

def genKey (md5 : Bytes) (args : List Int32) (fmt : Bytes) : Bytes :=
  let key := genKeyArgs (snprintf CACHE_KEY_SIZE md5) args
  let tmp := snprintf CACHE_KEY_SIZE (key ++ ascii ":" ++ fmt)
  snprintf CACHE_KEY_SIZE tmp

/-! ## Files and directories -/

def isFile (filename : Bytes) : Prog (Sys Im) Int := do
  match ← disk (.stat filename) with
  | some .regular => return 1
  | _ => return -1

def isDir (path : Bytes) : Prog (Sys Im) Int := do
  match ← disk (.stat path) with
  | some .directory => return 1
  | _ => return -1

def isSpecialDir (path : Bytes) : Int := if path = [dot] ∨ path = [dot, dot] then 1 else -1

def getFilePath (path fileName : Bytes) : Bytes :=
  let filePath := path
  let filePath :=
    if path.getLast? ≠ some slash then strLcat filePath [slash] PATH_MAX_SIZE else filePath
  strLcat filePath fileName PATH_MAX_SIZE

/-- The loop over `tmp`: what precedes position `i`, and what `tmp` holds from there on. -/
def mkDirsLoop : Bytes → Bytes → Prog (Sys Im) Int
  | _, [] => return 1
  | before, c :: rest => do
      if c = slash then
        if ← disk (.access before) then mkDirsLoop (before ++ [c]) rest
        else if ← disk (.mkdir before) then mkDirsLoop (before ++ [c]) rest
        else return -1
      else mkDirsLoop (before ++ [c]) rest

/-- What `tmp` holds before the loop: the path with a slash at its end, if there is room. -/
def mkDirsTmp (dir : Bytes) : Bytes :=
  let tmp := strLcpy dir 256
  if tmp.getLast? ≠ some slash then strLcat tmp [slash] 256 else tmp

def mkDirs (dir : Bytes) : Prog (Sys Im) Int :=
  let tmp := mkDirsTmp dir
  mkDirsLoop (tmp.take 1) (tmp.drop 1)

/-- The offsets of `tmp` that `mk_dirs` can write. -/
def mkDirsWrites (dir : Bytes) : List Nat :=
  let copied := strLcpy dir 256
  let tmp := mkDirsTmp dir
  strLcpyWrites dir 256 ++
    (if copied.getLast? ≠ some slash then strLcatWrites copied [slash] 256 else []) ++
    (List.range tmp.length).filter fun i => 1 ≤ i ∧ tmp[i]? = some slash

/-- The loop of `mk_dirf` from offset `i` of `str` on: the offset behind the last slash. -/
def mkDirfLoop : Bytes → Nat → Nat → Nat
  | [], _, fin => fin
  | c :: rest, i, fin => mkDirfLoop rest (i + 1) (if c = slash then i + 1 else fin)

def mkDirfWrites (filename : Bytes) : List Nat :=
  let len := filename.length
  strLcpyWrites filename len ++ [len, mkDirfLoop (strLcpy filename len) 0 0]

/-- Without a result where it writes outside `str`. -/
def mkDirf (filename : Bytes) : Prog (Sys Im) (Option Int) := do
  if ← disk (.access filename) then return some 1
  else if ∀ i ∈ mkDirfWrites filename, i < 256 then
    let str := strLcpy filename filename.length
    let fin := mkDirfLoop str 0 0
    if fin ≠ 0 then some <$> mkDirs (str.take fin) else return some 1
  else return none

def deleteEntries (deleteFile : Bytes → Prog (Sys Im) Int) (path : Bytes) :
    Int → List Bytes → Prog (Sys Im) Int
  | ret, [] => return ret
  | ret, name :: names =>
      let filePath := getFilePath path name
      if isSpecialDir name = 1 then deleteEntries deleteFile path ret names
      else do
        let ret ← deleteFile filePath
        if ret = -1 then return ret else deleteEntries deleteFile path ret names

def removeFile (path : Bytes) : Prog (Sys Im) Int := do
  if (← isFile path) = 1 then
    let _ ← disk (.remove path)
    return 1
  else return -1

def deleteFile : Nat → Bytes → Prog (Sys Im) Int
  | 0, _ => return -1
  | fuel + 1, path => do
      let ret ← removeFile path
      if (← isDir path) = 1 then
        match ← disk (.opendir path) with
        | none => return ret
        | some names =>
            let ret ← deleteEntries (deleteFile fuel) path 1 names
            if ret = 1 then
              if ← disk (.rmdir path) then return 0 else return -1
            else return ret
      else return ret

end Ximg

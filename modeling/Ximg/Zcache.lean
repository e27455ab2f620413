import Ximg.Zcommon

/-!
# The cache

Values that the cache holds under a key. A failed call of the client library is a miss.
-/

namespace Ximg
open Text Calls

variable {Im : Type} (settings : Settings) (thrArg : ThrArg)

def findCacheBin (key : Bytes) : Prog (Sys Im) (Option Bytes) :=
  if settings.cacheOn = 0 then return none
  else if thrArg.cacheConn = false then return none
  else sys (.memcached .cache (.get key))

def setCacheBin (key value : Bytes) : Prog (Sys Im) Int :=
  if settings.cacheOn = 0 then return -1
  else if thrArg.cacheConn = false then return -1
  else do
    if ← sys (.memcached .cache (.set key value)) then return 1 else return -1

def delCache (key : Bytes) : Prog (Sys Im) Int :=
  if settings.cacheOn = 0 then return -1
  else if thrArg.cacheConn = false then return -1
  else do
    if ← sys (.memcached .cache (.delete key)) then return 1 else return -1

end Ximg

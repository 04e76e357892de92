import Mathlib.Init

/-!
# Error codes

The codes of `kern/errno.h` that are not about sockets.
-/

namespace Os161

inductive Errno where
  | enosys
  | enomem
  | eagain
  | eintr
  | efault
  | enametoolong
  | einval
  | eperm
  | eacces
  | emproc
  | enproc
  | enoexec
  | e2big
  | esrch
  | echild
  | enotdir
  | eisdir
  | enoent
  | eloop
  | enotempty
  | eexist
  | emlink
  | exdev
  | enodev
  | enxio
  | ebusy
  | emfile
  | enfile
  | ebadf
  | eioctl
  | eio
  | espipe
  | epipe
  | erofs
  | enospc
  | edquot
  | efbig
  | eftype
  | edom
  | erange
  | eilseq
  | enotsup
  deriving DecidableEq, Repr

def Errno.code : Errno → Int
  | .enosys => 1
  | .enomem => 3
  | .eagain => 4
  | .eintr => 5
  | .efault => 6
  | .enametoolong => 7
  | .einval => 8
  | .eperm => 9
  | .eacces => 10
  | .emproc => 11
  | .enproc => 12
  | .enoexec => 13
  | .e2big => 14
  | .esrch => 15
  | .echild => 16
  | .enotdir => 17
  | .eisdir => 18
  | .enoent => 19
  | .eloop => 20
  | .enotempty => 21
  | .eexist => 22
  | .emlink => 23
  | .exdev => 24
  | .enodev => 25
  | .enxio => 26
  | .ebusy => 27
  | .emfile => 28
  | .enfile => 29
  | .ebadf => 30
  | .eioctl => 31
  | .eio => 32
  | .espipe => 33
  | .epipe => 34
  | .erofs => 35
  | .enospc => 36
  | .edquot => 37
  | .efbig => 38
  | .eftype => 39
  | .edom => 40
  | .erange => 41
  | .eilseq => 42
  | .enotsup => 64

theorem Errno.code_pos (err : Errno) : 0 < err.code ∧ err.code < 65 := by
  cases err <;> decide

theorem Errno.code_one {err : Errno} : err.code = 1 ↔ err = .enosys := by
  cases err <;> decide

end Os161

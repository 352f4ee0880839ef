namespace MarkerBus

abbrev ErrorNumber := Int

namespace ErrorNumber

def noEntry : ErrorNumber := 2
def ioError : ErrorNumber := 5
def busy : ErrorNumber := 16
def alreadyExists : ErrorNumber := 17
def notDirectory : ErrorNumber := 20
def isDirectory : ErrorNumber := 21
def invalidArgument : ErrorNumber := 22
def nameTooLong : ErrorNumber := 36
def notEmpty : ErrorNumber := 39
def tooManyLinks : ErrorNumber := 40

def texts : List (ErrorNumber × String) :=
  [(0, "Success"),
   (1, "Operation not permitted"),
   (2, "No such file or directory"),
   (5, "Input/output error"),
   (13, "Permission denied"),
   (16, "Device or resource busy"),
   (17, "File exists"),
   (20, "Not a directory"),
   (21, "Is a directory"),
   (22, "Invalid argument"),
   (27, "File too large"),
   (28, "No space left on device"),
   (30, "Read-only file system"),
   (36, "File name too long"),
   (39, "Directory not empty"),
   (40, "Too many levels of symbolic links"),
   (133, "Memory page has hardware error")]

def text (number : ErrorNumber) : String :=
  match texts.lookup number with
  | some text => text
  | none => "Unknown error " ++ toString number

def describe (number : ErrorNumber) : String :=
  "errno:" ++ toString number ++ " " ++ number.text

end ErrorNumber

end MarkerBus

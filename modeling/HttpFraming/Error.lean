import HttpFraming.Text

/-!
# Errors

Each error is a cause. Its wording is fixed by one `message` function per type, so
that no other part of the library composes texts.
-/

namespace HttpFraming

/-! ## Reading -/

/-- The place in the grammar of a head at which its bytes go wrong. -/
inductive SyntaxFault
  | fieldName
  | fieldValue
  | newLine
  | status
  | token
  | tooManyFields
  | version
deriving DecidableEq, Repr

def SyntaxFault.message : SyntaxFault → String
  | fieldName => "invalid header name"
  | fieldValue => "invalid header value"
  | newLine => "invalid new line"
  | status => "invalid response status"
  | token => "invalid token"
  | tooManyFields => "too many headers"
  | version => "invalid HTTP version"

inductive FieldFault
  | grammar (fault : SyntaxFault)
  | nameTooLong
  | lastCodingNotChunked
  | other (text : String)
deriving DecidableEq, Repr

def FieldFault.message : FieldFault → String
  | grammar fault => fault.message
  | nameTooLong => "invalid HTTP header name"
  | lastCodingNotChunked => "request transfer-encoding must end with chunked"
  | other text => text

inductive LengthFault
  | notText
  | notNumber (value : String)
  | besideTransferEncoding
  | other (text : String)
deriving DecidableEq, Repr

def LengthFault.message : LengthFault → String
  | notText => "value can't to_str"
  | notNumber value => s!"value {value} is not u64"
  | besideTransferEncoding => "transfer_encoding and content_length both present in headers"
  | other text => text

inductive BodyFault
  | sizeTooLarge
  | sizeMissing
  | sizeLineByte
  | newLineInExtension
  | sizeLineEnd
  | dataEnd
  | outsideRequest
  | other (text : String)
deriving DecidableEq, Repr

def BodyFault.message : BodyFault → String
  | sizeTooLarge => "chunk size overflows u64"
  | sizeMissing => "chunk size line without a size"
  | sizeLineByte => "invalid byte in chunk size line"
  | newLineInExtension => "chunk extension contains a newline"
  | sizeLineEnd => "chunk size line must end with CRLF"
  | dataEnd => "chunk data must end with CRLF"
  | outsideRequest => "unexpected message outside of a request"
  | other text => text

def optionalNumber : Option Nat → String
  | none => "None"
  | some n => s!"Some({n})"

inductive ReadError
  | headTooLarge (size limit : Nat)
  | tooManyFields (limit : Nat)
  | invalidField (fault : FieldFault)
  | invalidVersion (number? : Option Nat)
  | invalidMethod
  | invalidTarget
  | invalidStatus (code? : Option Nat)
  | invalidContentLength (fault : LengthFault)
  | manyContentLengths (values : List String)
  | invalidBody (fault : BodyFault)
  | prematureEnd
  | io (text : String)
deriving DecidableEq, Repr

def ReadError.message : ReadError → String
  | headTooLarge size limit =>
      s!"header size too large, current: {size} exceed the limit {limit}"
  | tooManyFields limit => s!"header number exceed the limit {limit}"
  | invalidField fault => "invalid header: " ++ fault.message
  | invalidVersion number? => "invalid http version: " ++ optionalNumber number?
  | invalidMethod => "invalid http method"
  | invalidTarget => "invalid http uri"
  | invalidStatus code? => "invalid http status: " ++ optionalNumber code?
  | invalidContentLength fault => "invalid content-length header: " ++ fault.message
  | manyContentLengths values => "Multiple Content-Length values found: " ++ Quoted.list values
  | invalidBody fault => "invalid body: " ++ fault.message
  | prematureEnd => "connection closed before the message was complete"
  | io text => "io error: " ++ text

/-! ## Writing -/

inductive PayloadFault
  | excess (size remaining : Nat)
  | shortfall (missing : Nat)
  | source (text : String)
deriving DecidableEq, Repr

def PayloadFault.message : PayloadFault → String
  | excess size remaining => s!"{size} bytes exceed the remaining content-length {remaining}"
  | shortfall missing => s!"body is {missing} bytes shorter than content-length"
  | source text => "resolve response body error: " ++ text

inductive OrderFault
  | headBeforeLast
  | payloadWithoutHead
  | failure
  | rawBeforeLast
  | upgraded
deriving DecidableEq, Repr

def OrderFault.message : OrderFault → String
  | headBeforeLast => "message head while the previous payload is unfinished"
  | payloadWithoutHead => "payload item without a message head"
  | failure => "decode failures can't be encoded"
  | rawBeforeLast => "opaque bytes while a payload is unfinished"
  | upgraded => "http message on an upgraded connection"

inductive WriteError
  | invalidBody (fault : PayloadFault)
  | unexpectedItem (fault : OrderFault)
  | unsupportedVersion
deriving DecidableEq, Repr

def WriteError.message : WriteError → String
  | invalidBody fault => "invalid body: " ++ fault.message
  | unexpectedItem fault => "unexpected item: " ++ fault.message
  | unsupportedVersion => "io error: unsupported"

/-! ## Collecting and pairing -/

inductive CollectError
  | responseTooLarge (attempted limit : Nat)
  | channelClosed
  | unexpectedHead
deriving DecidableEq, Repr

def CollectError.message : CollectError → String
  | responseTooLarge attempted limit =>
      s!"response entity too large: {attempted} bytes exceed the limit {limit}"
  | channelClosed => "writing on a closed channel"
  | unexpectedHead =>
      "received a new message head while the previous message is still in flight"

inductive ExchangeError
  | prematureClosure (missing : Nat)
deriving DecidableEq, Repr

def ExchangeError.message : ExchangeError → String
  | prematureClosure missing => s!"channel gone inactive with {missing} missing response(s)"

inductive SettingError
  | invalidMaxLength (value : Nat)
deriving DecidableEq, Repr

def SettingError.message : SettingError → String
  | invalidMaxLength value => s!"max_content_length must be a positive integer, got {value}"

/-! ## All of them -/

inductive HttpError
  | read (error : ReadError)
  | write (error : WriteError)
  | collect (error : CollectError)
  | exchange (error : ExchangeError)
deriving DecidableEq, Repr

def HttpError.message : HttpError → String
  | read error => "request error: " ++ error.message
  | write error => "response error: " ++ error.message
  | collect error => "aggregate error: " ++ error.message
  | exchange error => "exchange error: " ++ error.message

end HttpFraming

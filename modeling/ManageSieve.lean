import ManageSieve.Foundations.Utf8
import ManageSieve.Wire.Checked
import ManageSieve.Wire.Extension
import ManageSieve.Wire.Language
import ManageSieve.Rfc5804.Scripts
import ManageSieve.Rfc5804.Raw
import ManageSieve.Rfc5804.Buffers
import ManageSieve.Rfc5804.Challenges
import ManageSieve.Rfc5804.Inlining
import ManageSieve.Rfc5804.Splitting
import ManageSieve.Rfc5804.Lockstep
import ManageSieve.Session.Capabilities
import ManageSieve.Session.Url
import ManageSieve.Client.Hosting
import ManageSieve.Client.Storing
import ManageSieve.Client.Closing
import ManageSieve.Session.Lockstep
import ManageSieve.Client.Losing
